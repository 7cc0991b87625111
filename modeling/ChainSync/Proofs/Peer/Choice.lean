import ChainSync.Proofs.Peer.Operations
import ChainSync.Session.Attempt
set_option autoImplicit false

/-!
Who can be chosen as a master, and what dropping a peer changes for the others.
-/

namespace ChainSync

namespace PeerSet

variable {s : PeerSet} {id : PeerId} {p : SyncPeer}

theorem best?_mem (best : s.best? = some p) : p ∈ s.peers ∧ p.live = true := by
  have chosen (rest : List SyncPeer) (first : SyncPeer) :
      rest.foldl (fun a b => if (a.rank b).isGT then a else b) first ∈ first :: rest := by
    induction rest generalizing first with
    | nil => exact List.mem_cons_self ..
    | cons q rest ih =>
      rw [List.foldl_cons]
      split
      · rcases List.mem_cons.mp (ih first) with heq | hmem
        · exact List.mem_cons.mpr (.inl heq)
        · exact List.mem_cons_of_mem _ (List.mem_cons_of_mem _ hmem)
      · exact List.mem_cons_of_mem _ (ih q)
  unfold best? at best
  split at best
  · cases best
  · rename_i q rest live
    cases best
    have hmem := chosen rest q
    rw [← live, livePeers, List.mem_filter] at hmem
    exact hmem

theorem best?_isSome (hmem : p ∈ s.peers) (live : p.live = true) : s.best? ≠ none := by
  have hlive : p ∈ s.livePeers := List.mem_filter.mpr ⟨hmem, live⟩
  unfold best?
  split
  · rename_i nobody
    rw [nobody] at hlive
    cases hlive
  · simp

@[simp] theorem forkVerdict_drop (forkId : Option Fork.Id) :
    (s.drop id).forkVerdict forkId = s.forkVerdict forkId := by
  rcases s.drop_cases id with same | same <;> rw [same]
  rfl

@[simp] theorem isForkCompatible_drop : (s.drop id).isForkCompatible p = s.isForkCompatible p := by
  simp [isForkCompatible]

/-- Dropping a peer makes nobody come alive. -/
theorem mem_of_drop (hmem : p ∈ (s.drop id).peers) (live : p.live = true) : p ∈ s.peers := by
  rcases s.drop_cases id with same | same <;> rw [same] at hmem
  · exact hmem
  · obtain ⟨q, hq, rfl⟩ := List.mem_map.mp hmem
    split at live
    · cases live
    · rwa [if_neg ‹_›]

theorem mem_drop (hmem : p ∈ s.peers) (other : p.id ≠ id) : p ∈ (s.drop id).peers := by
  rcases s.drop_cases id with same | same <;> rw [same]
  · exact hmem
  · exact List.mem_map.mpr ⟨p, hmem, if_neg (by simpa using other)⟩

variable (unique : s.ids.Nodup)
include unique

theorem peers_drop_of_live (hmem : p ∈ s.peers) (live : p.live = true) : (s.drop p.id).peers =
    s.peers.map fun q => if q.id == p.id then { q with state := .dropped } else q := by
  have found := (get?_eq_some unique).mpr ⟨hmem, rfl⟩
  simp only [drop, found, live, if_true]
  rfl

theorem ne_of_drop (hmem : p ∈ (s.drop id).peers) (live : p.live = true) : p.id ≠ id := by
  rintro rfl
  rw [peers_drop_of_live unique (mem_of_drop hmem live) live, List.mem_map] at hmem
  obtain ⟨q, -, heq⟩ := hmem
  split at heq
  · rw [← heq] at live
    cases live
  · rename_i other
    exact other (by simp [heq])

theorem length_livePeers_drop (hmem : p ∈ s.peers) (live : p.live = true) :
    (s.drop p.id).livePeers.length < s.livePeers.length := by
  rw [livePeers, peers_drop_of_live unique hmem live, List.filter_map, List.length_map,
    filter_live_dropped]
  exact List.length_filter_lt_length_iff_exists.mpr ⟨p, List.mem_filter.mpr ⟨hmem, live⟩, by simp⟩

end PeerSet

namespace Attempt

variable {fuel : Nat} {peers : PeerSet} {p master : SyncPeer} {err : SyncError}

theorem selectMaster_error (failed : (selectMaster fuel peers).2 = .error err) :
    err = .noUsablePeers := by
  induction fuel generalizing peers with
  | zero =>
    cases failed
    rfl
  | succ fuel ih =>
    unfold selectMaster at failed
    split at failed
    · cases failed
      rfl
    · split at failed
      · cases failed
      · exact ih failed

/-- Only peers on other forks are dropped on the way. -/
theorem selectMaster_ok (chosen : (selectMaster fuel peers).2 = .ok master) :
    master ∈ peers.peers ∧ master.live = true ∧ peers.isForkCompatible master = true := by
  induction fuel generalizing peers with
  | zero => cases chosen
  | succ fuel ih =>
    unfold selectMaster at chosen
    split at chosen
    · cases chosen
    · rename_i best hbest
      split at chosen
      · rename_i compatible
        cases chosen
        obtain ⟨hmem, live⟩ := PeerSet.best?_mem hbest
        exact ⟨hmem, live, compatible⟩
      · obtain ⟨hmem, live, compatible⟩ := ih chosen
        exact ⟨PeerSet.mem_of_drop hmem live, live, by simpa using compatible⟩

theorem config_selectMaster (fuel : Nat) (peers : PeerSet) :
    (selectMaster fuel peers).1.config = peers.config := by
  induction fuel generalizing peers with
  | zero => rfl
  | succ fuel ih =>
    unfold selectMaster
    split
    · rfl
    · split
      · rfl
      · rw [ih, PeerSet.config_drop]

theorem ids_selectMaster (fuel : Nat) (peers : PeerSet) :
    (selectMaster fuel peers).1.ids = peers.ids := by
  induction fuel generalizing peers with
  | zero => rfl
  | succ fuel ih =>
    unfold selectMaster
    split
    · rfl
    · split
      · rfl
      · rw [ih, PeerSet.ids_drop]

/-- As long as a peer can be chosen, one is. -/
theorem selectMaster_finds (unique : peers.ids.Nodup) (hmem : p ∈ peers.peers)
    (live : p.live = true) (compatible : peers.isForkCompatible p = true)
    (enough : peers.livePeers.length < fuel) :
    ∃ master, (selectMaster fuel peers).2 = .ok master := by
  induction fuel generalizing peers with
  | zero => omega
  | succ fuel ih =>
    unfold selectMaster
    split
    · rename_i nobody
      exact absurd nobody (PeerSet.best?_isSome hmem live)
    · rename_i best hbest
      split
      · exact ⟨best, rfl⟩
      · rename_i incompatible
        obtain ⟨hbest, bestLive⟩ := PeerSet.best?_mem hbest
        have other : p.id ≠ best.id := by
          intro same
          rw [PeerSet.eq_of_id_eq unique hmem hbest same] at compatible
          exact incompatible compatible
        have fewer := PeerSet.length_livePeers_drop unique hbest bestLive
        exact ih (by simpa using unique) (PeerSet.mem_drop hmem other) (by simpa using compatible)
          (by omega)

theorem mem_selectMaster (hmem : p ∈ (selectMaster fuel peers).1.peers) (live : p.live = true) :
    p ∈ peers.peers ∧
      (selectMaster fuel peers).1.isForkCompatible p = peers.isForkCompatible p := by
  induction fuel generalizing peers with
  | zero => exact ⟨hmem, rfl⟩
  | succ fuel ih =>
    unfold selectMaster at hmem ⊢
    split
    · rename_i nobody
      rw [nobody] at hmem
      exact ⟨hmem, rfl⟩
    · rename_i best hbest
      rw [hbest] at hmem
      dsimp only at hmem
      split
      · rename_i compatible
        rw [if_pos compatible] at hmem
        exact ⟨hmem, rfl⟩
      · rename_i incompatible
        rw [if_neg incompatible] at hmem
        obtain ⟨kept, same⟩ := ih hmem
        exact ⟨PeerSet.mem_of_drop kept live, same.trans PeerSet.isForkCompatible_drop⟩

/-- When nobody is chosen, whoever is left is on another fork. -/
theorem selectMaster_nobody (unique : peers.ids.Nodup) (enough : peers.livePeers.length < fuel)
    (nobody : (selectMaster fuel peers).2.toOption = none)
    (hmem : p ∈ (selectMaster fuel peers).1.peers) (live : p.live = true) :
    (selectMaster fuel peers).1.isForkCompatible p = false := by
  obtain ⟨kept, same⟩ := mem_selectMaster hmem live
  rw [same, Bool.eq_false_iff]
  intro compatible
  obtain ⟨master, chosen⟩ := selectMaster_finds unique kept live compatible enough
  simp [chosen, Except.toOption] at nobody

end Attempt
end ChainSync
