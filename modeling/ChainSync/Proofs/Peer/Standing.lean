import ChainSync.Proofs.Peer.Announced
import ChainSync.Proofs.Peer.Choice
set_option autoImplicit false

/-!
Dropped peers stay away until they are unregistered, whoever is live is busy exactly while requests
of it are under way, and listeners are told of all of it.
-/

namespace ChainSync

/-- Whoever was not dropped is busy exactly while a request is under way. -/
def SyncPeer.Settled (p : SyncPeer) : Prop :=
  p.state ≠ .dropped → (p.state = .busy ↔ ∃ c, 0 < p.inFlight.get c)

theorem PerCategory.any_pos {counts : PerCategory Nat} :
    counts.toList.any (· > 0) = true ↔ ∃ c, 0 < counts.get c := by
  simp only [toList, List.any_eq_true, decide_eq_true_eq, List.mem_cons, List.not_mem_nil, or_false]
  constructor
  · rintro ⟨n, rfl | rfl | rfl | rfl, pos⟩
    · exact ⟨.headers, pos⟩
    · exact ⟨.bodies, pos⟩
    · exact ⟨.receipts, pos⟩
    · exact ⟨.stateNodes, pos⟩
  · rintro ⟨c, pos⟩
    refine ⟨counts.get c, ?_, pos⟩
    cases c <;> simp [get]

theorem SyncPeer.settled_refresh (p : SyncPeer) : p.refresh.Settled := by
  unfold refresh
  split
  · rename_i dropped
    exact fun usable => absurd dropped usable
  · intro _
    dsimp only
    rw [← PerCategory.any_pos]
    split
    · rename_i working
      exact ⟨fun _ => working, fun _ => rfl⟩
    · rename_i resting
      exact ⟨fun h => (by cases h), fun working => absurd working resting⟩

namespace PeerSet

variable {s s' : PeerSet} {c : Change} {id : PeerId}

section Settled

def Settled (s : PeerSet) : Prop := ∀ p ∈ s.peers, p.Settled

theorem settled_modify (settled : s.Settled) (id : PeerId) {f : SyncPeer → SyncPeer}
    (keeps : ∀ p : SyncPeer, p.Settled → (f p).Settled) : (s.modify id f).Settled := by
  intro p hp
  obtain ⟨q, hq, rfl⟩ := List.mem_map.mp hp
  split
  · exact keeps q (settled q hq)
  · exact settled q hq

theorem settled_drop (settled : s.Settled) (id : PeerId) : (s.drop id).Settled := by
  rcases s.drop_cases id with same | same <;> rw [same]
  · exact settled
  · exact settled_modify settled id fun p _ usable => absurd rfl usable

theorem settled_change {t : Tally} (settled : t.set.Settled) (c : Change) :
    (t.change c).set.Settled := by
  cases c with
  | call call =>
    cases call with
    | register info =>
      simp only [Tally.change, Tally.apply]
      split
      · rename_i set registered
        obtain ⟨-, -, new, -, idle, none, rfl⟩ := register_new registered
        intro p hp
        rcases List.mem_cons.mp ((insertPeer_perm ..).mem_iff.mp hp) with rfl | hp
        · intro _
          rw [idle, none]
          refine ⟨fun h => (by cases h), ?_⟩
          rintro ⟨c, pos⟩
          cases c <;> cases pos
        · exact settled p hp
      · exact settled
    | unregister id =>
      rcases t.set.unregister_cases id with ⟨-, same⟩ | ⟨-, same⟩ <;>
        simp only [Tally.change, Tally.apply, same]
      · exact settled
      · exact fun p hp => settled p (List.mem_of_mem_filter hp)
    | drop id => exact settled_drop settled id
    | blacklist id =>
      have noted : ({ t.set with blacklisted := t.set.blacklisted.insert id } : PeerSet).Settled :=
        settled
      exact settled_drop noted id
    | beginRequest id d =>
      simp only [Tally.change, Tally.apply]
      split
      · rename_i begun
        obtain ⟨-, -, rfl⟩ := beginRequest_ok begun
        exact settled_modify settled id fun _ _ => SyncPeer.settled_refresh _
      · exact settled
    | release index =>
      simp only [Tally.change, Tally.apply]
      split
      · exact settled_modify settled _ fun _ _ => SyncPeer.settled_refresh _
      · exact settled
    | recordDelivery id d items elapsed => exact settled_modify settled id fun _ h => h
    | recordTimeout id d =>
      simp only [Tally.change, Tally.apply]
      rcases t.set.recordTimeout_cases id d with same | same | same <;> rw [same]
      · exact settled
      · exact settled_modify settled id fun _ h => h
      · refine settled_drop ?_ id
        exact settled_modify settled id fun _ h => h
  | updateHead id headHash head totalDifficulty =>
    simp only [Tally.change, updateHead]
    split
    · rename_i updated
      split at updated <;> cases updated
      exact settled_modify settled id fun _ h => h
    · exact settled
  | setForkFilter filter => exact settled
  | setForkHead head => exact settled

end Settled

section Barred

/-- Nobody on the blacklist is live. -/
def Barred (s : PeerSet) : Prop := ∀ id ∈ s.blacklisted, id ∉ s.activeIds

@[simp] theorem blacklisted_drop (s : PeerSet) (id : PeerId) :
    (s.drop id).blacklisted = s.blacklisted := by
  rcases s.drop_cases id with same | same <;> rw [same]
  rfl

theorem blacklisted_change (t : Tally) (c : Change) :
    (∃ id, c = .call (.blacklist id)) ∨ (t.change c).set.blacklisted = t.set.blacklisted := by
  cases c with
  | call call =>
    cases call with
    | blacklist id => exact .inl ⟨id, rfl⟩
    | register info =>
      simp only [Tally.change, Tally.apply]
      split
      · rename_i registered
        obtain ⟨-, -, -, -, -, -, rfl⟩ := register_new registered
        exact .inr rfl
      · exact .inr rfl
    | unregister id =>
      rcases t.set.unregister_cases id with ⟨-, same⟩ | ⟨-, same⟩
      · exact .inr (congrArg PeerSet.blacklisted same)
      · exact .inr ((congrArg PeerSet.blacklisted same).trans rfl)
    | drop id => exact .inr (blacklisted_drop ..)
    | beginRequest id d =>
      simp only [Tally.change, Tally.apply]
      split
      · rename_i begun
        obtain ⟨-, -, rfl⟩ := beginRequest_ok begun
        exact .inr rfl
      · exact .inr rfl
    | release index =>
      simp only [Tally.change, Tally.apply]
      split <;> exact .inr rfl
    | recordDelivery id d items elapsed => exact .inr rfl
    | recordTimeout id d =>
      simp only [Tally.change, Tally.apply]
      rcases t.set.recordTimeout_cases id d with same | same | same <;> rw [same]
      · exact .inr rfl
      · exact .inr rfl
      · exact .inr (blacklisted_drop ..)
  | updateHead id headHash head totalDifficulty =>
    simp only [Tally.change, updateHead]
    split
    · rename_i updated
      split at updated <;> cases updated
      exact .inr rfl
    · exact .inr rfl
  | setForkFilter filter => exact .inr rfl
  | setForkHead head => exact .inr rfl

theorem barred_change {t : Tally} (unique : t.set.ids.Nodup) (barred : t.set.Barred) (c : Change) :
    (t.change c).set.Barred := by
  have told := t.change_told unique c
  rcases blacklisted_change t c with ⟨id, rfl⟩ | same
  · have active : (t.change (.call (.blacklist id))).set.activeIds =
        t.set.activeIds.filter (· != id) :=
      activeIds_drop (s := { t.set with blacklisted := t.set.blacklisted.insert id }) unique id
    intro other listed hmem
    rw [active, List.mem_filter, bne_iff_ne] at hmem
    have noted : (t.change (.call (.blacklist id))).set.blacklisted =
        t.set.blacklisted.insert id := blacklisted_drop ..
    rw [noted] at listed
    rcases List.mem_insert_iff.mp listed with heq | before
    · exact hmem.2 heq
    · exact barred other before hmem.1
  · intro other listed hmem
    rw [same] at listed
    cases told with
    | nothing _ _ active => exact barred other listed (active ▸ hmem)
    | registered _ _ allowed _ active _ =>
      rcases List.mem_cons.mp (active.mem_iff.mp hmem) with rfl | hmem
      · exact allowed listed
      · exact barred other listed hmem
    | dropped _ _ _ active => exact barred other listed (List.mem_of_mem_filter (active ▸ hmem))
    | unregistered _ _ _ active =>
      exact barred other listed (List.mem_of_mem_filter (active ▸ hmem))

end Barred

section Listening

theorem Told.ascending (told : Told s c s') (ascending : s.Ascending) : s'.Ascending := by
  cases told with
  | nothing _ ids _ => rwa [Ascending, ids]
  | registered _ _ _ _ _ ordered => exact ordered ascending
  | dropped _ _ ids _ => rwa [Ascending, ids]
  | unregistered _ _ ids _ =>
    rw [Ascending, ids]
    exact ascending.filter _

/-- Only unregistering a dropped peer ends its being dropped. -/
theorem Told.stays_dropped (told : Told s c s') (kept : c ≠ .call (.unregister id))
    (dropped : id ∈ s.ids ∧ id ∉ s.activeIds) : id ∈ s'.ids ∧ id ∉ s'.activeIds := by
  cases told with
  | nothing _ ids active => rwa [ids, active]
  | registered _ fresh _ ids active _ =>
    rw [ids.mem_iff, active.mem_iff, List.mem_cons, List.mem_cons, not_or]
    refine ⟨.inr dropped.1, ?_, dropped.2⟩
    rintro rfl
    exact fresh dropped.1
  | dropped _ _ ids active =>
    rw [ids, active]
    exact ⟨dropped.1, fun hmem => dropped.2 (List.mem_of_mem_filter hmem)⟩
  | @unregistered _ other _ _ ids active =>
    rw [ids, active, List.mem_filter, bne_iff_ne]
    refine ⟨⟨dropped.1, ?_⟩, fun hmem => dropped.2 (List.mem_of_mem_filter hmem)⟩
    rintro rfl
    exact kept rfl

theorem stay_congr (known : id ∈ s'.ids ↔ id ∈ s.ids) (active : id ∈ s'.activeIds ↔ id ∈ s.activeIds) :
    s'.stay id = s.stay id := by
  simp only [stay, known, active]

/-- What was published of a peer are its stays so far, and the one that has not ended. -/
structure Heard (events : List PeerEvent) (s : PeerSet) : Prop where
  replayed : Roster.replay events = s.roster
  stays : ∀ id, ∃ ended : List Bool,
    events.filter (·.peer == id) = ended.flatMap (visit id) ++ s.stay id

/-- An event that fits what it does to the set keeps what was heard right. -/
theorem Heard.concat {events : List PeerEvent} (h : Heard events s) {e : PeerEvent}
    (roster : s.roster.hear e = s'.roster)
    (others : ∀ id, e.peer ≠ id → s'.stay id = s.stay id)
    (own : ∃ ended : List Bool, s.stay e.peer ++ [e] = ended.flatMap (visit e.peer) ++ s'.stay e.peer) :
    Heard (events ++ [e]) s' := by
  refine ⟨by rw [Roster.replay_concat, h.replayed, roster], fun id => ?_⟩
  obtain ⟨ended, before⟩ := h.stays id
  rw [List.filter_append, before]
  by_cases same : e.peer = id
  · subst same
    obtain ⟨more, now⟩ := own
    refine ⟨ended ++ more, ?_⟩
    rw [List.filter_cons_of_pos (by simp), List.filter_nil, List.append_assoc, now,
      List.flatMap_append, List.append_assoc]
  · refine ⟨ended, ?_⟩
    rw [List.filter_cons_of_neg (by simpa using same), List.filter_nil, List.append_nil, others id same]

theorem Told.heard (told : Told s c s') {number : Nat} (listening : s.events.Listening number)
    (heard : Heard (s.events.backlog number) s) :
    s'.events.Listening number ∧ Heard (s'.events.backlog number) s' := by
  cases told with
  | nothing events ids active =>
    rw [events]
    refine ⟨listening, heard.replayed.trans ?_, fun id => ?_⟩
    · rw [roster, roster, ids, active]
    · have same : s'.stay id = s.stay id := stay_congr (by rw [ids]) (by rw [active])
      rw [same]
      exact heard.stays id
  | @registered info _ events fresh _ ids active _ =>
    obtain ⟨listening', more⟩ := listening.publish (.registered info.id)
    rw [events, more]
    have inactive : info.id ∉ s.activeIds := fun h => fresh (s.activeIds_sublist.subset h)
    refine ⟨listening', heard.concat ?_ (fun id ne => ?_) ⟨[], ?_⟩⟩
    · simp only [roster, Roster.hear, List.toFinset_eq_of_perm _ _ ids,
        List.toFinset_eq_of_perm _ _ active, List.toFinset_cons]
    · have ne : id ≠ info.id := fun h => ne h.symm
      exact stay_congr (by simp [ids.mem_iff, ne]) (by simp [active.mem_iff, ne])
    · simp [stay, PeerEvent.peer, fresh, ids.mem_iff, active.mem_iff]
  | @dropped _ _ id events live ids active =>
    obtain ⟨listening', more⟩ := listening.publish (.dropped id)
    rw [events, more]
    have known : id ∈ s.ids := s.activeIds_sublist.subset live
    refine ⟨listening', heard.concat ?_ (fun other ne => ?_) ⟨[], ?_⟩⟩
    · simp only [roster, Roster.hear, ids, active]
      congr 1
      ext x
      simp [and_comm]
    · have ne : other ≠ id := fun h => ne h.symm
      exact stay_congr (by rw [ids]) (by simp [active, ne])
    · simp [stay, PeerEvent.peer, ids, active, known, live]
  | @unregistered _ id events known ids active =>
    obtain ⟨listening', more⟩ := listening.publish (.unregistered id)
    rw [events, more]
    refine ⟨listening', heard.concat ?_ (fun other ne => ?_) ⟨[decide (id ∉ s.activeIds)], ?_⟩⟩
    · simp only [roster, Roster.hear, ids, active]
      congr 1 <;>
      · ext x
        simp [and_comm]
    · have ne : other ≠ id := fun h => ne h.symm
      exact stay_congr (by simp [ids, ne]) (by simp [active, ne])
    · by_cases live : id ∈ s.activeIds <;> simp [stay, visit, PeerEvent.peer, ids, known, live]

end Listening

/-- What holds of a set that someone has listened to from the start. -/
structure Followed (s : PeerSet) : Prop where
  ascending : s.Ascending
  listening : s.events.Listening 0
  heard : Heard (s.events.backlog 0) s
  barred : s.Barred
  settled : s.Settled

theorem Ascending.unique (ascending : s.Ascending) : s.ids.Nodup :=
  ascending.imp fun below same => Nat.ne_of_lt below (congrArg BitVec.toNat same)

theorem followed_watched (config : Config) : (Tally.watched config).set.Followed where
  ascending := .nil
  listening := ⟨rfl, rfl⟩
  heard := ⟨rfl, fun _ => ⟨[], rfl⟩⟩
  barred := by simp [Barred, Tally.watched, ofConfig]
  settled := by simp [Settled, Tally.watched, ofConfig]

theorem followed_change {t : Tally} (h : t.set.Followed) (c : Change) : (t.change c).set.Followed := by
  have told := t.change_told h.ascending.unique c
  obtain ⟨listening, heard⟩ := told.heard h.listening h.heard
  exact ⟨told.ascending h.ascending, listening, heard, barred_change h.ascending.unique h.barred c,
    settled_change h.settled c⟩

theorem followed_changes {t : Tally} (h : t.set.Followed) (cs : List Change) :
    (t.changes cs).set.Followed := by
  induction cs generalizing t with
  | nil => exact h
  | cons c cs ih => exact ih (followed_change h c)

/-- A stay that has not ended is the beginning of one that has. -/
theorem stay_prefix (s : PeerSet) (id : PeerId) : ∃ wasDropped, s.stay id <+: visit id wasDropped := by
  unfold stay
  split
  · split
    · exact ⟨false, [.unregistered id], rfl⟩
    · exact ⟨true, [.unregistered id], rfl⟩
  · exact ⟨false, List.nil_prefix⟩

/-- A dropped peer is neither chosen nor asked. -/
theorem avoided_of_dropped (unique : s.ids.Nodup) {p : SyncPeer} (hp : p ∈ s.peers)
    (dropped : p.state = .dropped) : (∀ q, s.best? = some q → q.id ≠ p.id) ∧
      ∀ c, (∀ q ∈ s.forCategory c, q.id ≠ p.id) ∧
        s.beginRequest p.id c = .error (.peerDropped p.id) := by
  have others {q : SyncPeer} (hq : q ∈ s.peers) (live : q.live = true) : q.id ≠ p.id := by
    intro same
    rw [eq_of_id_eq unique hq hp same, SyncPeer.live, dropped] at live
    cases live
  refine ⟨fun q best => others (best?_mem best).1 (best?_mem best).2, fun c => ⟨fun q listed => ?_, ?_⟩⟩
  · rw [forCategory, List.mem_mergeSort, List.mem_filter, canServe, Bool.and_eq_true] at listed
    exact others listed.1 listed.2.1
  · rw [beginRequest, (get?_eq_some unique).mpr ⟨hp, rfl⟩]
    exact if_pos dropped

/-- Whatever happens to a set of peers, the published events tell who is registered and who is live;
each peer is told of stay by stay, with one drop in each at most; nobody on the blacklist is live;
whoever was dropped stays so until unregistered, and is never chosen or asked; and everyone else is
busy exactly while requests of it are under way. -/
theorem events_tell_the_standing (config : Config) (cs : List Change) :
    let t := (Tally.watched config).changes cs
    t.set.ids.Pairwise (·.toNat < ·.toNat) ∧
    Roster.replay t.published = ⟨t.set.ids.toFinset, t.set.activeIds.toFinset⟩ ∧
    (∀ id, ∃ stays : List Bool, t.published.filter (·.peer == id) <+: stays.flatMap (visit id)) ∧
    (∀ id, t.set.isBlacklisted id → id ∉ t.set.activeIds) ∧
    (∀ p ∈ t.set.peers, p.state = .dropped →
      (∀ c, c ≠ .call (.unregister p.id) →
        ∃ p' ∈ (t.change c).set.peers, p'.id = p.id ∧ p'.state = .dropped) ∧
      (∀ q, t.set.best? = some q → q.id ≠ p.id) ∧
      ∀ c, (∀ q ∈ t.set.forCategory c, q.id ≠ p.id) ∧
        t.set.beginRequest p.id c = .error (.peerDropped p.id)) ∧
    ∀ p ∈ t.set.peers, p.state ≠ .dropped → (p.state = .busy ↔ ∃ c, 0 < p.inFlight.get c) := by
  intro t
  have followed : t.set.Followed := followed_changes (followed_watched config) cs
  have unique := followed.ascending.unique
  refine ⟨followed.ascending, followed.heard.replayed, fun id => ?_, fun id listed => ?_,
    fun p hp dropped => ⟨fun c kept => ?_, avoided_of_dropped unique hp dropped⟩, followed.settled⟩
  · obtain ⟨ended, heard⟩ := followed.heard.stays id
    obtain ⟨wasDropped, now⟩ := t.set.stay_prefix id
    refine ⟨ended ++ [wasDropped], ?_⟩
    rw [Tally.published, heard, List.flatMap_append, List.flatMap_singleton]
    exact (List.prefix_append_right_inj _).mpr now
  · exact followed.barred id (by simpa [isBlacklisted] using listed)
  · have gone := (not_mem_activeIds unique).mpr ⟨p, hp, rfl, dropped⟩
    have unique' := (followed_change followed c).ascending.unique
    exact (not_mem_activeIds unique').mp ((t.change_told unique c).stays_dropped kept gone)

/-- Of a peer that is dropped over and over listeners hear once. -/
example :
    let info : PeerInfo :=
      { id := 1, version := 68, headHash := 0, head := 0, totalDifficulty := .ofNat 0
        forkId := none, connection := 0 }
    ((Tally.watched {}).changes [.call (.register info), .call (.drop 1), .call (.blacklist 1),
      .call (.recordTimeout 1 .bodies), .call (.unregister 1), .call (.register info)]).published =
        [.registered 1, .dropped 1, .unregistered 1] := rfl

end PeerSet
end ChainSync
