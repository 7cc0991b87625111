import Mathlib.Data.List.Nodup
import ChainSync.Peer.Set
set_option autoImplicit false

/-!
What the operations on a set of peers come to. None changes the configuration, and only registering
and unregistering change who is registered.
-/

namespace ChainSync

@[simp] theorem SyncPeer.id_refresh (p : SyncPeer) : p.refresh.id = p.id := by
  unfold refresh
  split <;> rfl

namespace PeerSet

variable (s : PeerSet) (id : PeerId) (c : Category)

/-- A peer that is not there, or was dropped before, is not dropped again. -/
theorem drop_cases : s.drop id = s ∨
    s.drop id = (s.modify id ({ · with state := .dropped })).publish (.dropped id) := by
  unfold drop
  split
  · split
    · exact .inr rfl
    · exact .inl rfl
  · exact .inl rfl

/-- Dropping a peer takes it off the live ones. -/
theorem filter_live_dropped :
    s.peers.filter (SyncPeer.live ∘ fun p =>
      if p.id == id then { p with state := .dropped } else p) = s.livePeers.filter (·.id != id) := by
  rw [livePeers, List.filter_filter]
  refine List.filter_congr fun p _ => ?_
  by_cases same : p.id = id <;> simp [same, SyncPeer.live]

/-- Who does not answer in time is slowed down, and dropped if that happened too often. -/
theorem recordTimeout_cases : (s.recordTimeout id c).2 = s ∨
    let slower := s.modify id fun p =>
      { p with
        throughput := p.throughput.modify c (· / 2.0)
        consecutiveTimeouts := p.consecutiveTimeouts + 1 }
    (s.recordTimeout id c).2 = slower ∨ (s.recordTimeout id c).2 = slower.drop id := by
  unfold recordTimeout
  split
  · exact .inl rfl
  · dsimp only
    split
    · exact .inr (.inr rfl)
    · exact .inr (.inl rfl)

section Config

@[simp] theorem config_modify (f : SyncPeer → SyncPeer) : (s.modify id f).config = s.config := rfl

@[simp] theorem config_drop : (s.drop id).config = s.config := by
  rcases s.drop_cases id with same | same <;> rw [same]
  rfl

@[simp] theorem config_blacklist : (s.blacklist id).config = s.config :=
  config_drop { s with blacklisted := s.blacklisted.insert id } id

@[simp] theorem config_recordTimeout : (s.recordTimeout id c).2.config = s.config := by
  rcases s.recordTimeout_cases id c with same | same | same <;> simp [same]

end Config

section Ids

theorem ids_modify {f : SyncPeer → SyncPeer} (same : ∀ p, (f p).id = p.id) :
    (s.modify id f).ids = s.ids := by
  rw [ids, ids, modify, List.map_map]
  refine List.map_congr_left fun p _ => ?_
  rw [Function.comp_apply]
  split
  · exact same p
  · rfl

@[simp] theorem ids_drop : (s.drop id).ids = s.ids := by
  rcases s.drop_cases id with same | same <;> rw [same]
  exact ids_modify s id fun _ => rfl

@[simp] theorem ids_blacklist : (s.blacklist id).ids = s.ids :=
  ids_drop { s with blacklisted := s.blacklisted.insert id } id

@[simp] theorem ids_release (slot : Slot) : (s.release slot).ids = s.ids :=
  ids_modify s slot.peer fun _ => SyncPeer.id_refresh _

@[simp] theorem ids_recordDelivery (items : Nat) (elapsed : Duration) :
    (s.recordDelivery id c items elapsed).ids = s.ids :=
  ids_modify s id fun _ => rfl

@[simp] theorem ids_recordTimeout : (s.recordTimeout id c).2.ids = s.ids := by
  rcases s.recordTimeout_cases id c with same | same | same <;> rw [same]
  · exact ids_modify s id fun _ => rfl
  · exact (ids_drop ..).trans (ids_modify s id fun _ => rfl)

end Ids

section Unique

variable {s id} {p : SyncPeer} (unique : s.ids.Nodup)
include unique

theorem eq_of_id_eq {q : SyncPeer} (hp : p ∈ s.peers) (hq : q ∈ s.peers) (same : p.id = q.id) :
    p = q :=
  List.inj_on_of_nodup_map unique hp hq same

theorem get?_eq_some : s.get? id = some p ↔ p ∈ s.peers ∧ p.id = id := by
  constructor
  · intro found
    exact ⟨List.mem_of_find?_eq_some found, by simpa using List.find?_some found⟩
  · rintro ⟨hmem, rfl⟩
    cases found : s.get? p.id with
    | none => simpa using List.find?_eq_none.mp found p hmem
    | some q =>
      have hq := List.mem_of_find?_eq_some found
      have same : q.id = p.id := by simpa using List.find?_some found
      rw [eq_of_id_eq unique hq hmem same]

end Unique

section BeginRequest

variable {s id c} {s' : PeerSet} {slot : Slot}

theorem beginRequest_ok (begun : s.beginRequest id c = .ok (slot, s')) :
    slot = ⟨id, c⟩ ∧
      (∃ p ∈ s.peers, p.id = id ∧ p.inFlight.get c < s.config.maxInFlightPerPeer.toNat) ∧
      s' = s.modify id fun p => { p with inFlight := p.inFlight.modify c (· + 1) }.refresh := by
  unfold beginRequest at begun
  split at begun
  · cases begun
  · rename_i p found
    split at begun
    · cases begun
    · split at begun
      · cases begun
      · rename_i free
        cases begun
        exact ⟨rfl, ⟨p, List.mem_of_find?_eq_some found, by simpa using List.find?_some found,
          Nat.lt_of_not_ge free⟩, rfl⟩

theorem config_beginRequest (begun : s.beginRequest id c = .ok (slot, s')) :
    s'.config = s.config := by
  obtain ⟨-, -, rfl⟩ := beginRequest_ok begun
  rfl

theorem ids_beginRequest (begun : s.beginRequest id c = .ok (slot, s')) : s'.ids = s.ids := by
  obtain ⟨-, -, rfl⟩ := beginRequest_ok begun
  exact ids_modify s id fun _ => SyncPeer.id_refresh _

end BeginRequest

end PeerSet
end ChainSync
