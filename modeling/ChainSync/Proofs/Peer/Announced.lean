import Mathlib.Data.Finset.Dedup
import Mathlib.Data.Finset.Erase
import Mathlib.Data.Finset.Insert
import ChainSync.Proofs.Peer.Active
set_option autoImplicit false

/-!
What a set of peers publishes. Who listens from the start knows at every moment who is registered and
who was dropped, and what is known of a peer agrees with the state it is in.
-/

namespace ChainSync

namespace EventBus

variable {α : Type} {b : EventBus α} {id : Nat}

/-- What is published from now on reaches the subscription. -/
structure Listening (b : EventBus α) (id : Nat) : Prop where
  isOpen : b.isOpen = true
  held : (b.subscribers.find? (·.id == id)).isSome

theorem Listening.publish (h : b.Listening id) (event : α) :
    (b.publish event).2.Listening id ∧ (b.publish event).2.backlog id = b.backlog id ++ [event] := by
  obtain ⟨s, hs⟩ := Option.isSome_iff_exists.mp h.held
  have found : (b.publish event).2.subscribers.find? (·.id == id) =
      some { s with backlog := s.backlog ++ [event] } := by
    simp only [EventBus.publish, h.isOpen, if_true, List.find?_map, Function.comp_def, hs,
      Option.map_some]
  refine ⟨⟨?_, by rw [found]; rfl⟩, ?_⟩
  · simp only [EventBus.publish, h.isOpen, if_true]
  · simp only [backlog, found, hs]

end EventBus

def PeerEvent.peer : PeerEvent → PeerId
  | .registered id | .unregistered id | .dropped id => id

namespace PeerSet

/-- Who is registered, and who of them was not dropped. -/
structure Roster where
  known : Finset PeerId
  live : Finset PeerId

namespace Roster

def empty : Roster := ⟨∅, ∅⟩

def hear (r : Roster) : PeerEvent → Roster
  | .registered id => ⟨insert id r.known, insert id r.live⟩
  | .dropped id => ⟨r.known, r.live.erase id⟩
  | .unregistered id => ⟨r.known.erase id, r.live.erase id⟩

def replay (events : List PeerEvent) : Roster := events.foldl hear empty

theorem replay_concat (events : List PeerEvent) (e : PeerEvent) :
    replay (events ++ [e]) = (replay events).hear e := by
  rw [replay, List.foldl_append]
  rfl

end Roster

def roster (s : PeerSet) : Roster := ⟨s.ids.toFinset, s.activeIds.toFinset⟩

def Ascending (s : PeerSet) : Prop := s.ids.Pairwise (·.toNat < ·.toNat)

/-- The events of one stay of a peer. -/
def visit (id : PeerId) (wasDropped : Bool) : List PeerEvent :=
  .registered id :: if wasDropped then [.dropped id, .unregistered id] else [.unregistered id]

/-- The events so far of a stay that has not ended. -/
def stay (s : PeerSet) (id : PeerId) : List PeerEvent :=
  if id ∈ s.ids then
    if id ∈ s.activeIds then [.registered id] else [.registered id, .dropped id]
  else []

/-- What may happen to a set: the calls that a tally counts, and those that touch no slot. -/
inductive Change where
  | call (call : Call)
  | updateHead (id : PeerId) (headHash : Hash) (head : UInt64) (totalDifficulty : U256)
  | setForkFilter (filter : Option Fork.Filter)
  | setForkHead (head : UInt64)

namespace Tally

def change (t : Tally) : Change → Tally
  | .call call => t.apply call
  | .updateHead id headHash head totalDifficulty =>
    match t.set.updateHead id headHash head totalDifficulty with
    | .ok set => { t with set }
    | .error _ => t
  | .setForkFilter filter => { t with set := t.set.setForkFilter filter }
  | .setForkHead head => { t with set := t.set.setForkHead head }

def changes (t : Tally) (cs : List Change) : Tally := cs.foldl change t

/-- An empty set with one subscriber, who takes nothing out of the backlog. -/
def watched (config : Config) : Tally :=
  ⟨{ PeerSet.ofConfig config with events := (EventBus.empty.subscribe).2 }, []⟩

/-- All that was published, oldest first. -/
def published (t : Tally) : List PeerEvent := t.set.events.backlog 0

end Tally

section Operations

variable {s s' : PeerSet} {id : PeerId}

theorem register_new {info : PeerInfo} (registered : s.register info = .ok s') :
    info.id ∉ s.blacklisted ∧ info.id ∉ s.ids ∧ ∃ p : SyncPeer, p.id = info.id ∧ p.state = .idle ∧
      p.inFlight = .const 0 ∧
        s' = { s with peers := insertPeer p s.peers }.publish (.registered info.id) := by
  unfold register at registered
  split at registered
  · cases registered
  · rename_i allowed
    split at registered
    · cases registered
    · rename_i unknown
      split at registered
      · cases registered
      · cases registered
        exact ⟨by simpa [isBlacklisted] using allowed, by simpa using unknown, _, rfl, rfl, rfl, rfl⟩

theorem ascending_insertPeer {p : SyncPeer} {l : List SyncPeer}
    (ascending : (l.map SyncPeer.id).Pairwise (·.toNat < ·.toNat)) (unknown : p.id ∉ l.map SyncPeer.id) :
    ((insertPeer p l).map SyncPeer.id).Pairwise (·.toNat < ·.toNat) := by
  induction l with
  | nil => exact List.pairwise_singleton ..
  | cons q l ih =>
    obtain ⟨above, rest⟩ := List.pairwise_cons.mp ascending
    unfold insertPeer
    split
    · rename_i before
      refine List.pairwise_cons.mpr ⟨fun id hid => ?_, ascending⟩
      rcases List.mem_cons.mp hid with rfl | hid
      · exact before
      · exact Nat.lt_trans before (above id hid)
    · rename_i behind
      rw [List.map_cons, List.mem_cons, not_or] at unknown
      have ne : p.id.toNat ≠ q.id.toNat := fun same => unknown.1 (BitVec.eq_of_toNat_eq same)
      refine List.pairwise_cons.mpr ⟨fun id hid => ?_, ih rest unknown.2⟩
      rcases List.mem_cons.mp (((insertPeer_perm p l).map SyncPeer.id).mem_iff.mp hid) with rfl | hid
      · exact Nat.lt_of_le_of_ne (Nat.le_of_not_lt behind) ne.symm
      · exact above id hid

theorem unregister_cases (s : PeerSet) (id : PeerId) : id ∉ s.ids ∧ s.unregister id = s ∨
    id ∈ s.ids ∧ s.unregister id =
      { s with peers := s.peers.filter (·.id != id) }.publish (.unregistered id) := by
  unfold unregister
  split
  · rename_i known
    exact .inr ⟨by simpa using known, rfl⟩
  · rename_i unknown
    exact .inl ⟨by simpa using unknown, rfl⟩

theorem mem_ids : id ∈ s.ids ↔ ∃ p ∈ s.peers, p.id = id := List.mem_map

theorem activeIds_sublist (s : PeerSet) : s.activeIds.Sublist s.ids :=
  List.Sublist.map _ List.filter_sublist

variable (unique : s.ids.Nodup)
include unique

theorem not_mem_activeIds : (id ∈ s.ids ∧ id ∉ s.activeIds) ↔
    ∃ p ∈ s.peers, p.id = id ∧ p.state = .dropped := by
  constructor
  · rintro ⟨known, inactive⟩
    obtain ⟨p, hp, rfl⟩ := mem_ids.mp known
    refine ⟨p, hp, rfl, Decidable.not_not.mp fun usable => inactive ?_⟩
    exact mem_activeIds.mpr ⟨p, hp, bne_iff_ne.mpr usable, rfl⟩
  · rintro ⟨p, hp, rfl, dropped⟩
    refine ⟨mem_ids.mpr ⟨p, hp, rfl⟩, fun active => ?_⟩
    obtain ⟨q, hq, live, same⟩ := mem_activeIds.mp active
    rw [eq_of_id_eq unique hq hp same, SyncPeer.live, dropped] at live
    cases live

/-- Dropping is told of exactly when it changes something. -/
theorem drop_of_active (id : PeerId) : id ∈ s.activeIds ∧ s.drop id =
      (s.modify id ({ · with state := .dropped })).publish (.dropped id) ∨
    id ∉ s.activeIds ∧ s.drop id = s := by
  unfold drop
  cases found : s.get? id with
  | none =>
    refine .inr ⟨fun active => ?_, rfl⟩
    obtain ⟨p, hp, -, same⟩ := mem_activeIds.mp active
    rw [(get?_eq_some unique).mpr ⟨hp, same⟩] at found
    cases found
  | some p =>
    obtain ⟨hp, rfl⟩ := (get?_eq_some unique).mp found
    dsimp only
    split
    · rename_i live
      exact .inl ⟨mem_activeIds.mpr ⟨p, hp, live, rfl⟩, rfl⟩
    · rename_i dead
      refine .inr ⟨fun active => ?_, rfl⟩
      obtain ⟨q, hq, live, same⟩ := mem_activeIds.mp active
      rw [eq_of_id_eq unique hq hp same] at live
      exact dead live

theorem activeIds_drop (id : PeerId) : (s.drop id).activeIds = s.activeIds.filter (· != id) := by
  rcases drop_of_active unique id with ⟨-, same⟩ | ⟨inactive, same⟩
  · rw [same]
    have others := filter_live_dropped s id
    have ids : (SyncPeer.id ∘ fun p : SyncPeer =>
        if p.id == id then { p with state := .dropped } else p) = SyncPeer.id := by
      funext p
      rw [Function.comp_apply]
      split <;> rfl
    simp only [activeIds, publish, modify, livePeers, List.filter_map, List.map_map] at others ⊢
    rw [others, ids]
    rfl
  · rw [same]
    refine (List.filter_eq_self.mpr fun x hx => bne_iff_ne.mpr ?_).symm
    rintro rfl
    exact inactive hx

end Operations

/-- How a change shows to those who listen: by one event at most, which says all that it does to who
is registered and who is live. -/
inductive Told (s : PeerSet) : Change → PeerSet → Prop where
  | nothing {c : Change} {s' : PeerSet} (events : s'.events = s.events) (ids : s'.ids = s.ids)
      (active : s'.activeIds = s.activeIds) : Told s c s'
  | registered {info : PeerInfo} {s' : PeerSet}
      (events : s'.events = (s.events.publish (.registered info.id)).2) (fresh : info.id ∉ s.ids)
      (allowed : info.id ∉ s.blacklisted) (ids : s'.ids.Perm (info.id :: s.ids))
      (active : s'.activeIds.Perm (info.id :: s.activeIds))
      (ordered : s.Ascending → s'.Ascending) : Told s (.call (.register info)) s'
  | dropped {c : Change} {s' : PeerSet} {id : PeerId}
      (events : s'.events = (s.events.publish (.dropped id)).2) (live : id ∈ s.activeIds)
      (ids : s'.ids = s.ids) (active : s'.activeIds = s.activeIds.filter (· != id)) : Told s c s'
  | unregistered {s' : PeerSet} {id : PeerId}
      (events : s'.events = (s.events.publish (.unregistered id)).2) (known : id ∈ s.ids)
      (ids : s'.ids = s.ids.filter (· != id)) (active : s'.activeIds = s.activeIds.filter (· != id)) :
      Told s (.call (.unregister id)) s'

namespace Told

variable {s s' s'' : PeerSet} {c : Change} {id : PeerId}

theorem refl (s : PeerSet) : Told s c s := .nothing rfl rfl rfl

theorem modify (s : PeerSet) (id : PeerId) {f : SyncPeer → SyncPeer}
    (same : ∀ p, (f p).id = p.id ∧ (f p).live = p.live) : Told s c (s.modify id f) :=
  .nothing rfl (ids_modify s id fun p => (same p).1) (activeIds_modify s id same)

/-- Dropping, after what nobody is told of. -/
theorem drop (unique : s.ids.Nodup) (quiet : PeerSet) (events : quiet.events = s.events)
    (ids : quiet.ids = s.ids) (active : quiet.activeIds = s.activeIds) (id : PeerId) :
    Told s c (quiet.drop id) := by
  rcases drop_of_active (ids ▸ unique) id with ⟨live, same⟩ | ⟨-, same⟩
  · refine .dropped ?_ (active ▸ live) ((ids_drop ..).trans ids) ?_
    · rw [same, ← events]
      rfl
    · rw [activeIds_drop (ids ▸ unique), active]
  · rw [same]
    exact .nothing events ids active

theorem register {info : PeerInfo} (registered : s.register info = .ok s') :
    Told s (.call (.register info)) s' := by
  obtain ⟨allowed, unknown, p, hid, idle, -, rfl⟩ := register_new registered
  have live : p.live = true := by rw [SyncPeer.live, idle]; rfl
  have perm := insertPeer_perm p s.peers
  refine .registered rfl unknown allowed (hid ▸ perm.map SyncPeer.id) ?_ fun ascending => ?_
  · have active := (perm.filter (·.live)).map SyncPeer.id
    rwa [List.filter_cons_of_pos live, List.map_cons, hid] at active
  · exact ascending_insertPeer ascending (hid ▸ unknown)

theorem unregister (s : PeerSet) (id : PeerId) :
    Told s (.call (.unregister id)) (s.unregister id) := by
  rcases s.unregister_cases id with ⟨-, same⟩ | ⟨known, same⟩
  · rw [same]
    exact .refl s
  · refine .unregistered (by rw [same]; rfl) known ?_ ?_
    · rw [same]
      simp only [ids, publish, List.filter_map]
      rfl
    · rw [same]
      simp only [activeIds, livePeers, publish, List.filter_map, List.filter_filter]
      exact congrArg (List.map SyncPeer.id) (List.filter_congr fun p _ => Bool.and_comm ..)

theorem recordTimeout (unique : s.ids.Nodup) (d : Category) : Told s c (s.recordTimeout id d).2 := by
  rcases s.recordTimeout_cases id d with same | same | same <;> rw [same]
  · exact .refl s
  · exact .modify s id fun _ => ⟨rfl, rfl⟩
  · let slower := s.modify id fun p => { p with
      throughput := p.throughput.modify d (· / 2.0)
      consecutiveTimeouts := p.consecutiveTimeouts + 1 }
    have ids : slower.ids = s.ids := ids_modify s id fun _ => rfl
    have active : slower.activeIds = s.activeIds := activeIds_modify s id fun _ => ⟨rfl, rfl⟩
    exact .drop unique slower rfl ids active id

end Told

theorem Tally.change_told {t : Tally} (unique : t.set.ids.Nodup) (c : Change) :
    Told t.set c (t.change c).set := by
  cases c with
  | call call =>
    cases call with
    | register info =>
      simp only [change, apply]
      split
      · exact .register ‹_›
      · exact .refl _
    | unregister id => exact .unregister ..
    | drop id => exact .drop unique t.set rfl rfl rfl id
    | blacklist id =>
      exact .drop unique { t.set with blacklisted := t.set.blacklisted.insert id } rfl rfl rfl id
    | beginRequest id d =>
      simp only [change, apply]
      split
      · rename_i begun
        obtain ⟨-, -, rfl⟩ := beginRequest_ok begun
        exact .modify _ _ fun _ => ⟨SyncPeer.id_refresh _, SyncPeer.live_refresh _⟩
      · exact .refl _
    | release index =>
      simp only [change, apply]
      split
      · exact .modify _ _ fun _ => ⟨SyncPeer.id_refresh _, SyncPeer.live_refresh _⟩
      · exact .refl _
    | recordDelivery id d items elapsed => exact .modify _ _ fun _ => ⟨rfl, rfl⟩
    | recordTimeout id d => exact .recordTimeout unique d
  | updateHead id headHash head totalDifficulty =>
    simp only [change, updateHead]
    split
    · rename_i updated
      split at updated <;> cases updated
      exact .modify _ _ fun _ => ⟨rfl, rfl⟩
    · exact .refl _
  | setForkFilter filter => exact .nothing rfl rfl rfl
  | setForkHead head => exact .nothing rfl rfl rfl

end PeerSet
end ChainSync
