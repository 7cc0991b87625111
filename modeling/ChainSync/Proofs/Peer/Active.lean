import ChainSync.Proofs.Peer.Slots
set_option autoImplicit false

/-!
Who is left to be asked. Only dropping and unregistering take a peer away, and only the one they
name.
-/

namespace ChainSync

@[simp] theorem SyncPeer.live_refresh (p : SyncPeer) : p.refresh.live = p.live := by
  unfold refresh
  split
  · rfl
  · rename_i usable
    have live : p.live = true := bne_iff_ne.mpr usable
    rw [live]
    simp only [SyncPeer.live]
    split <;> rfl

namespace PeerSet

variable {s s' : PeerSet} {id other : PeerId} {c : Category}

theorem mem_activeIds : id ∈ s.activeIds ↔ ∃ p ∈ s.peers, p.live ∧ p.id = id := by
  simp only [activeIds, livePeers, List.mem_map, List.mem_filter, and_assoc]

theorem activeIds_modify (s : PeerSet) (id : PeerId) {f : SyncPeer → SyncPeer}
    (same : ∀ p, (f p).id = p.id ∧ (f p).live = p.live) :
    (s.modify id f).activeIds = s.activeIds := by
  have kept (p : SyncPeer) : (if p.id == id then f p else p).id = p.id ∧
      (if p.id == id then f p else p).live = p.live := by
    split
    · exact same p
    · exact ⟨rfl, rfl⟩
  simp only [activeIds, livePeers, modify, List.filter_map, List.map_map]
  have live : (·.live) ∘ (fun p : SyncPeer => if p.id == id then f p else p) = (·.live) :=
    funext fun p => (kept p).2
  rw [live]
  exact List.map_congr_left fun p _ => (kept p).1

theorem activeIds_release (s : PeerSet) (slot : Slot) : (s.release slot).activeIds = s.activeIds :=
  activeIds_modify s _ fun _ => ⟨SyncPeer.id_refresh _, SyncPeer.live_refresh _⟩

theorem activeIds_recordDelivery (s : PeerSet) (id : PeerId) (c : Category) (items : Nat)
    (elapsed : Duration) : (s.recordDelivery id c items elapsed).activeIds = s.activeIds :=
  activeIds_modify s _ fun _ => ⟨rfl, rfl⟩

theorem activeIds_beginRequest {slot : Slot} (begun : s.beginRequest id c = .ok (slot, s')) :
    s'.activeIds = s.activeIds := by
  obtain ⟨-, -, rfl⟩ := beginRequest_ok begun
  exact activeIds_modify s _ fun _ => ⟨SyncPeer.id_refresh _, SyncPeer.live_refresh _⟩

theorem mem_activeIds_modify {f : SyncPeer → SyncPeer} (ne : id ≠ other)
    (active : id ∈ s.activeIds) : id ∈ (s.modify other f).activeIds := by
  obtain ⟨p, hp, live, rfl⟩ := mem_activeIds.mp active
  refine mem_activeIds.mpr ⟨p, List.mem_map.mpr ⟨p, hp, if_neg ?_⟩, live, rfl⟩
  simpa using ne

theorem mem_activeIds_drop (ne : id ≠ other) (active : id ∈ s.activeIds) :
    id ∈ (s.drop other).activeIds := by
  rcases s.drop_cases other with same | same <;> rw [same]
  · exact active
  · exact mem_activeIds_modify ne active

theorem mem_activeIds_unregister (ne : id ≠ other) (active : id ∈ s.activeIds) :
    id ∈ (s.unregister other).activeIds := by
  unfold unregister
  split
  · obtain ⟨p, hp, live, rfl⟩ := mem_activeIds.mp active
    exact mem_activeIds.mpr ⟨p, List.mem_filter.mpr ⟨hp, bne_iff_ne.mpr ne⟩, live, rfl⟩
  · exact active

theorem mem_activeIds_recordTimeout (ne : id ≠ other) (active : id ∈ s.activeIds) :
    id ∈ (s.recordTimeout other c).2.activeIds := by
  rcases s.recordTimeout_cases other c with same | same | same <;> rw [same]
  · exact active
  · exact mem_activeIds_modify ne active
  · exact mem_activeIds_drop ne (mem_activeIds_modify ne active)

theorem consecutiveTimeouts_recordDelivery {items : Nat} {elapsed : Duration} {p : SyncPeer}
    (hp : p ∈ (s.recordDelivery id c items elapsed).peers) (hid : p.id = id) :
    p.consecutiveTimeouts = 0 := by
  obtain ⟨q, hq, rfl⟩ := List.mem_map.mp hp
  split at hid
  · rename_i same
    rw [if_pos same]
  · rename_i other
    simp [hid] at other

/-- No peer has requests of the kind under way, and each may have some. -/
structure Free (c : Category) (s : PeerSet) : Prop where
  unique : s.ids.Nodup
  room : 0 < s.config.maxInFlightPerPeer.toNat
  idle : ∀ p ∈ s.peers, p.inFlight.get c = 0

theorem Free.beginRequest (free : s.Free c) (active : id ∈ s.activeIds) :
    ∃ slot s', s.beginRequest id c = .ok (slot, s') := by
  obtain ⟨p, hp, live, rfl⟩ := mem_activeIds.mp active
  have found : s.get? p.id = some p := (get?_eq_some free.unique).mpr ⟨hp, rfl⟩
  have usable : p.state ≠ .dropped := bne_iff_ne.mp live
  have below : ¬ p.inFlight.get c ≥ s.config.maxInFlightPerPeer.toNat := by
    rw [free.idle p hp]
    exact Nat.not_le.mpr free.room
  exact ⟨_, _, by rw [PeerSet.beginRequest, found]; exact (if_neg usable).trans (if_neg below)⟩

theorem recount_decline (p : SyncPeer) :
    (recount id c (· - 1) (recount id c (· + 1) p)).inFlight.get c = p.inFlight.get c := by
  rw [get_recount, get_recount, id_recount]
  split <;> simp_all

/-- A slot that was taken and given back at once is free again. -/
theorem get_declined {slot : Slot} (begun : s.beginRequest id c = .ok (slot, s')) {p' : SyncPeer}
    (hp' : p' ∈ (s'.release slot).peers) :
    ∃ p ∈ s.peers, p'.id = p.id ∧ p'.inFlight.get c = p.inFlight.get c := by
  obtain ⟨rfl, -, rfl⟩ := beginRequest_ok begun
  obtain ⟨q, hq, rfl⟩ := List.mem_map.mp (peers_recount .. ▸ hp')
  obtain ⟨p, hp, rfl⟩ := List.mem_map.mp (peers_recount .. ▸ hq)
  exact ⟨p, hp, by rw [id_recount, id_recount], recount_decline p⟩

theorem Free.decline (free : s.Free c) {slot : Slot}
    (begun : s.beginRequest id c = .ok (slot, s')) : (s'.release slot).Free c where
  unique := by
    rw [ids_release, ids_beginRequest begun]
    exact free.unique
  room := by
    change 0 < s'.config.maxInFlightPerPeer.toNat
    rw [config_beginRequest begun]
    exact free.room
  idle p' hp' := by
    obtain ⟨p, hp, -, same⟩ := get_declined begun hp'
    rw [same, free.idle p hp]

end PeerSet
end ChainSync
