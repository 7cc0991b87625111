import ChainSync.Proofs.Peer.Active
set_option autoImplicit false

/-!
A peer that can be asked for more, and what asking it and hearing from it leave of that.
-/

namespace ChainSync

namespace PeerSet

variable {s : PeerSet} {id other : PeerId} {c : Category}

theorem get?_modify {f : SyncPeer → SyncPeer} (same : ∀ p, (f p).id = p.id) :
    (s.modify other f).get? id = (s.get? id).map fun p => if p.id == other then f p else p := by
  have ids : (fun p : SyncPeer => p.id == id) ∘ (fun p => if p.id == other then f p else p) =
      fun p => p.id == id := by
    funext p
    rw [Function.comp_apply]
    split
    · rw [same]
    · rfl
  rw [get?, modify, List.find?_map, ids]
  rfl

/-- The peer is there and was not dropped, and so many more requests of the kind may be sent to
it. -/
structure Serves (s : PeerSet) (id : PeerId) (c : Category) (spare : Nat) : Prop where
  limit : 0 < s.config.maxInFlightPerPeer.toNat
  peer : ∃ p, s.get? id = some p ∧ p.live = true ∧
    p.inFlight.get c + spare ≤ s.config.maxInFlightPerPeer.toNat

namespace Serves

variable {spare spare' : Nat}

theorem modify (serves : s.Serves id c spare) {f : SyncPeer → SyncPeer}
    (same : ∀ p, (f p).id = p.id ∧ (f p).live = p.live)
    (counts : ∀ p, p.inFlight.get c + spare ≤ s.config.maxInFlightPerPeer.toNat →
      (f p).inFlight.get c + spare' ≤ s.config.maxInFlightPerPeer.toNat) :
    (s.modify id f).Serves id c spare' := by
  obtain ⟨limit, p, found, live, room⟩ := serves
  have named : p.id = id := by simpa using List.find?_some found
  refine ⟨limit, f p, ?_, (same p).2.trans live, counts p room⟩
  rw [get?_modify fun p => (same p).1, found, Option.map_some, if_pos (by simp [named])]

theorem beginRequest (serves : s.Serves id c 1) :
    ∃ slot s', s.beginRequest id c = .ok (slot, s') ∧ s'.Serves id c 0 := by
  obtain ⟨limit, p, found, live, room⟩ := serves
  have usable : p.state ≠ .dropped := bne_iff_ne.mp live
  have below : ¬ p.inFlight.get c ≥ s.config.maxInFlightPerPeer.toNat := by omega
  refine ⟨⟨id, c⟩, s.modify id fun p => { p with inFlight := p.inFlight.modify c (· + 1) }.refresh,
    ?_, Serves.modify ⟨limit, p, found, live, room⟩
      (fun p => ⟨SyncPeer.id_refresh _, SyncPeer.live_refresh _⟩) fun p room => ?_⟩
  · rw [PeerSet.beginRequest, found]
    exact (if_neg usable).trans (if_neg below)
  · rw [inFlight_refresh, PerCategory.get_modify_self]
    exact room

theorem release (serves : s.Serves id c 0) : (s.release ⟨id, c⟩).Serves id c 1 := by
  have limit := serves.limit
  refine serves.modify (fun p => ⟨SyncPeer.id_refresh _, SyncPeer.live_refresh _⟩) fun p room => ?_
  simp only [inFlight_refresh, PerCategory.get_modify_self]
  omega

theorem recordDelivery (serves : s.Serves id c spare) (items : Nat) (elapsed : Duration) :
    (s.recordDelivery id c items elapsed).Serves id c spare :=
  serves.modify (fun _ => ⟨rfl, rfl⟩) fun _ room => room

end Serves
end PeerSet
end ChainSync
