import ChainSync.Proofs.Fetch.Accounts
import ChainSync.Proofs.State.Requests
set_option autoImplicit false

/-!
The requests of a state download. Taking nodes in changes what is scheduled and what waits, but
makes no request and forgets none but the one that is answered.
-/

namespace ChainSync

open Fetch

namespace StateDownload

variable {σ : Type} [NodeStore σ] {d d' : StateDownload}

instance : Asking StateDownload where
  asks d id := (d.inFlight.lookup id).map fun (peer, hashes) => (peer, .nodes hashes)
  attempts d := d.nextAttempt

theorem still_takeIn (d : StateDownload) (store : σ) (outstanding : List Hash)
    (accepted unrequested : Nat) (nodes : List Bytes) :
    Still d (d.takeIn store outstanding accepted unrequested nodes).1 := by
  induction nodes generalizing d store outstanding accepted unrequested with
  | nil => exact ⟨rfl, rfl, rfl, rfl⟩
  | cons data rest ih =>
    simp only [takeIn]
    split
    · have processed := (grown_process
        { d with scheduled := d.scheduled.filter (·.1 != keccak data) } store (keccak data)
        data).toStill
      split <;> rename_i heq <;> rw [heq] at processed
      · exact ⟨processed.session, processed.inFlight, processed.nextAttempt,
          processed.root⟩
      · exact .trans ⟨processed.session, processed.inFlight, processed.nextAttempt,
          processed.root⟩ (ih ..)
    · exact ih ..

theorem still_requeueAll (d : StateDownload) (failed : Option PeerId) (hashes : List Hash) :
    Still d (hashes.foldl (requeue · failed) d) := by
  induction hashes generalizing d with
  | nil => exact ⟨rfl, rfl, rfl, rfl⟩
  | cons hash hashes ih =>
    have requeued : Still d (d.requeue failed hash) := by
      unfold requeue
      split <;> exact ⟨rfl, rfl, rfl, rfl⟩
    exact requeued.trans (ih _)

theorem Still.forgets (h : Still d d') : Forgets d d' := by
  refine ⟨rfl, h.nextAttempt, fun {id x} asked => ?_⟩
  simpa only [Asking.asks, h.inFlight] using asked

/-- A request that was taken out is forgotten, whatever becomes of its hashes. -/
theorem forgets_taken {id : RequestId}
    (h : Still { d with inFlight := d.inFlight.filter (·.1 != id) } d') :
    Forgets d d' ∧ Asking.asks d' id = none := by
  refine ⟨⟨rfl, h.nextAttempt, fun {id' x} asked => ?_⟩, ?_⟩
  · simp only [Asking.asks, h.inFlight, Option.map_eq_some_iff] at asked ⊢
    obtain ⟨e, he, rfl⟩ := asked
    exact ⟨e, Keyed.lookup_of_filter he, rfl⟩
  · simp only [Asking.asks, h.inFlight, Keyed.lookup_filter_self, Option.map_none]

theorem forgets_fail (d : StateDownload) (id : RequestId) :
    Forgets d (d.fail id).2 ∧ Asking.asks (d.fail id).2 id = none := by
  unfold fail
  split
  · rename_i gone
    exact ⟨.refl d, Option.map_eq_none_iff.mpr gone⟩
  · exact forgets_taken (still_requeueAll ..)

instance : Accountable σ StateDownload where
  reserve {d d' peer capacity live a} h := by
    change d.reserve peer capacity live = some (a, d') at h
    simp only [reserve] at h
    split at h
    · cases h
    · obtain ⟨rfl, rfl⟩ := Prod.mk.inj (Option.some_inj.mp h)
      refine ⟨rfl, rfl, rfl, fun {id x} asked => ?_⟩
      simp only [Asking.asks, List.lookup_append, Option.map_eq_some_iff,
        Option.or_eq_some_iff] at asked
      obtain ⟨e, he | ⟨-, he⟩, rfl⟩ := asked
      · exact .inl (Option.map_eq_some_iff.mpr ⟨e, he, rfl⟩)
      · obtain ⟨rfl, rfl⟩ : id = ⟨d.session, d.nextAttempt⟩ ∧ e = _ := by
          simpa using Keyed.mem_of_lookup he
        exact .inr ⟨rfl, rfl⟩
  fail := forgets_fail
  failPeer d peer :=
    failPeer_induction (P := Forgets d) peer (.refl d) fun id h => h.trans (forgets_fail _ id).1
  deliver d board id peer payload := by
    change Forgets d (d.deliver board.store id peer payload.nodesOf).1 ∧
      Asking.asks (d.deliver board.store id peer payload.nodesOf).1 id = none
    unfold deliver
    split
    · rename_i gone
      exact ⟨.refl d, Option.map_eq_none_iff.mpr gone⟩
    · rename_i requested _
      have taken := still_takeIn { d with inFlight := d.inFlight.filter (·.1 != id) } board.store
        requested 0 0 payload.nodesOf
      dsimp only
      split <;> rename_i heq <;> rw [heq] at taken
      · exact forgets_taken taken
      · exact forgets_taken (taken.trans (still_requeueAll ..))
  stale d board id peer payload unasked := by
    have gone : d.inFlight.lookup id = none := by simpa [Asking.asks] using unasked
    refine ⟨payload.nodesOf.length, ?_⟩
    simp only [Receiver.deliver, deliver, gone]

theorem unasked_start {session commitBatch : Nat} {root : Hash} {store : σ}
    (opened : start session root store commitBatch = .ok d) (id : RequestId) :
    Asking.asks d id = none := by
  unfold start at opened
  dsimp only at opened
  have empty : d.inFlight = [] := by
    split at opened
    · cases opened
      rfl
    · split at opened <;> cases opened
      · rfl
      · exact (grown_schedule ..).inFlight
  simp [Asking.asks, empty]

end StateDownload
end ChainSync
