import Mathlib.Data.List.Nodup
import Mathlib.Data.List.Perm.Basic
import ChainSync.Proofs.Peer.Operations
set_option autoImplicit false

/-!
Request slots are given back by the id of their peer alone, whoever goes by that id by then. What
the counters of a set are worth while peers leave and come back.
-/

namespace ChainSync

namespace PeerSet

/-- A slot that has not been given back. -/
structure Holding where
  slot : Slot
  /-- Whether its peer has not registered anew since. -/
  current : Bool
  deriving DecidableEq, Repr

/-- Another registration of the peer outdates the slots of the one before. -/
def Holding.outdate (id : PeerId) (x : Holding) : Holding :=
  if x.slot.peer = id then { x with current := false } else x

/-- A set of peers with the slots that are held of it. -/
structure Tally where
  set : PeerSet
  held : List Holding

inductive Call where
  | register (info : PeerInfo)
  | unregister (id : PeerId)
  | drop (id : PeerId)
  | blacklist (id : PeerId)
  | beginRequest (id : PeerId) (c : Category)
  /-- Gives one of the held slots back. -/
  | release (index : Nat)
  | recordDelivery (id : PeerId) (c : Category) (items : Nat) (elapsed : Duration)
  | recordTimeout (id : PeerId) (c : Category)

namespace Tally

def apply (t : Tally) : Call → Tally
  | .register info =>
    match t.set.register info with
    | .ok set => ⟨set, t.held.map (·.outdate info.id)⟩
    | .error _ => t
  | .unregister id => { t with set := t.set.unregister id }
  | .drop id => { t with set := t.set.drop id }
  | .blacklist id => { t with set := t.set.blacklist id }
  | .beginRequest id c =>
    match t.set.beginRequest id c with
    | .ok (slot, set) => ⟨set, t.held ++ [⟨slot, true⟩]⟩
    | .error _ => t
  | .release index =>
    match t.held[index]? with
    | some x => ⟨t.set.release x.slot, t.held.eraseIdx index⟩
    | none => t
  | .recordDelivery id c items elapsed => { t with set := t.set.recordDelivery id c items elapsed }
  | .recordTimeout id c => { t with set := (t.set.recordTimeout id c).2 }

def run (t : Tally) (calls : List Call) : Tally := calls.foldl apply t

/-- The held slots of a peer and a category that were begun since it last registered. -/
def holds (t : Tally) (id : PeerId) (c : Category) : Nat := t.held.count ⟨⟨id, c⟩, true⟩

/-- The counter of every registered peer tells how many of its slots are held. -/
def Exact (t : Tally) : Prop := ∀ p ∈ t.set.peers, ∀ c, p.inFlight.get c = t.holds p.id c

/-- An outdated slot is given back while its peer, back again, has requests of the kind under
way. -/
def Untimely (t : Tally) (call : Call) : Prop :=
  ∃ index x p, call = .release index ∧ t.held[index]? = some x ∧ x.current = false ∧
    p ∈ t.set.peers ∧ p.id = x.slot.peer ∧ 0 < p.inFlight.get x.slot.category

end Tally

section Counters

variable {s : PeerSet}

@[simp] theorem inFlight_refresh (p : SyncPeer) : p.refresh.inFlight = p.inFlight := by
  unfold SyncPeer.refresh
  split <;> rfl

/-- What leaves the counters of the peers that stay as they are. -/
structure Quiet (s s' : PeerSet) : Prop where
  config : s'.config = s.config
  ids : s'.ids.Sublist s.ids
  peers : ∀ p' ∈ s'.peers, ∃ p ∈ s.peers, p'.id = p.id ∧ p'.inFlight = p.inFlight

namespace Quiet

theorem refl (s : PeerSet) : Quiet s s := ⟨rfl, .refl _, fun p hp => ⟨p, hp, rfl, rfl⟩⟩

theorem trans {s s' s'' : PeerSet} (h : Quiet s s') (h' : Quiet s' s'') : Quiet s s'' := by
  refine ⟨h'.config.trans h.config, h'.ids.trans h.ids, fun p hp => ?_⟩
  obtain ⟨p', hp', hid, hcount⟩ := h'.peers p hp
  obtain ⟨p'', hp'', hid', hcount'⟩ := h.peers p' hp'
  exact ⟨p'', hp'', hid.trans hid', hcount.trans hcount'⟩

theorem modify (s : PeerSet) (id : PeerId) {f : SyncPeer → SyncPeer}
    (same : ∀ p, (f p).id = p.id ∧ (f p).inFlight = p.inFlight) : Quiet s (s.modify id f) := by
  have ids : (s.modify id f).ids = s.ids := ids_modify s id fun p => (same p).1
  refine ⟨rfl, ids ▸ .refl _, fun p hp => ?_⟩
  obtain ⟨q, hq, rfl⟩ := List.mem_map.mp hp
  refine ⟨q, hq, ?_⟩
  split
  · exact same q
  · exact ⟨rfl, rfl⟩

theorem drop (s : PeerSet) (id : PeerId) : Quiet s (s.drop id) := by
  rcases s.drop_cases id with same | same <;> rw [same]
  · exact .refl s
  · obtain ⟨config, ids, peers⟩ := modify s id (f := ({ · with state := .dropped }))
      fun _ => ⟨rfl, rfl⟩
    exact ⟨config, ids, peers⟩

theorem unregister (s : PeerSet) (id : PeerId) : Quiet s (s.unregister id) := by
  unfold PeerSet.unregister
  split
  · refine ⟨rfl, List.Sublist.map _ List.filter_sublist, fun p hp => ?_⟩
    exact ⟨p, List.mem_of_mem_filter hp, rfl, rfl⟩
  · exact .refl s

theorem blacklist (s : PeerSet) (id : PeerId) : Quiet s (s.blacklist id) := by
  obtain ⟨config, ids, peers⟩ := drop { s with blacklisted := s.blacklisted.insert id } id
  exact ⟨config, ids, peers⟩

theorem recordDelivery (s : PeerSet) (id : PeerId) (c : Category) (items : Nat)
    (elapsed : Duration) : Quiet s (s.recordDelivery id c items elapsed) :=
  modify s id fun _ => ⟨rfl, rfl⟩

theorem recordTimeout (s : PeerSet) (id : PeerId) (c : Category) :
    Quiet s (s.recordTimeout id c).2 := by
  rcases s.recordTimeout_cases id c with same | same | same <;> rw [same]
  · exact .refl s
  · exact modify s id fun _ => ⟨rfl, rfl⟩
  · refine .trans ?_ (drop ..)
    exact modify s id fun _ => ⟨rfl, rfl⟩

end Quiet

theorem insertPeer_perm (p : SyncPeer) (l : List SyncPeer) : (insertPeer p l).Perm (p :: l) := by
  induction l with
  | nil => exact .refl _
  | cons q l ih =>
    unfold insertPeer
    split
    · exact .refl _
    · exact (ih.cons q).trans (.swap ..)

theorem register_ok {s' : PeerSet} {info : PeerInfo} (registered : s.register info = .ok s') :
    info.id ∉ s.ids ∧ s'.config = s.config ∧ ∃ p, p.id = info.id ∧ (∀ c, p.inFlight.get c = 0) ∧
      s'.peers.Perm (p :: s.peers) := by
  unfold register at registered
  split at registered
  · cases registered
  · split at registered
    · cases registered
    · rename_i unknown
      split at registered
      · cases registered
      · cases registered
        exact ⟨by simpa using unknown, rfl, _, rfl, fun c => by cases c <;> rfl, insertPeer_perm ..⟩

/-- A peer with one of its counters changed, if it is the one that goes by the id. -/
def recount (id : PeerId) (c : Category) (f : Nat → Nat) (p : SyncPeer) : SyncPeer :=
  if p.id == id then { p with inFlight := p.inFlight.modify c f }.refresh else p

theorem id_recount (id : PeerId) (c : Category) (f : Nat → Nat) (p : SyncPeer) :
    (recount id c f p).id = p.id := by
  unfold recount
  split
  · exact SyncPeer.id_refresh _
  · rfl

theorem get_recount (id : PeerId) (c : Category) (f : Nat → Nat) (p : SyncPeer) (d : Category) :
    (recount id c f p).inFlight.get d =
      if p.id = id ∧ d = c then f (p.inFlight.get d) else p.inFlight.get d := by
  unfold recount
  by_cases same : p.id = id
  · simp only [same, beq_self_eq_true, if_true, inFlight_refresh, true_and]
    split
    · rename_i heq
      rw [heq, PerCategory.get_modify_self]
    · rename_i other
      exact PerCategory.get_modify_of_ne _ _ other
  · simp [same]

theorem peers_recount (id : PeerId) (c : Category) (f : Nat → Nat) :
    (s.modify id fun p => { p with inFlight := p.inFlight.modify c f }.refresh).peers =
      s.peers.map (recount id c f) := rfl

end Counters

namespace Tally

variable {t : Tally} {limit : Nat}

/-- No counter is ahead of the slots that are held, nor above the limit. -/
structure Bounded (limit : Nat) (t : Tally) : Prop where
  unique : t.set.ids.Nodup
  limit_eq : t.set.config.maxInFlightPerPeer.toNat = limit
  held : ∀ p ∈ t.set.peers, ∀ c, p.inFlight.get c ≤ t.holds p.id c
  bound : ∀ p ∈ t.set.peers, ∀ c, p.inFlight.get c ≤ limit

/-- What one operation does to the set and to the slots that are held. -/
inductive Effect (t : Tally) : Call → Tally → Prop where
  | quiet {call : Call} {set : PeerSet} (quiet : Quiet t.set set)
      (unreleased : ∀ index x, call = .release index → t.held[index]? ≠ some x) :
    Effect t call { t with set }
  | registered {info : PeerInfo} {set : PeerSet} (h : t.set.register info = .ok set) :
    Effect t (.register info) ⟨set, t.held.map (·.outdate info.id)⟩
  | begun {id : PeerId} {c : Category} {slot : Slot} {set : PeerSet}
      (h : t.set.beginRequest id c = .ok (slot, set)) :
    Effect t (.beginRequest id c) ⟨set, t.held ++ [⟨slot, true⟩]⟩
  | released {index : Nat} {x : Holding} (h : t.held[index]? = some x) :
    Effect t (.release index) ⟨t.set.release x.slot, t.held.eraseIdx index⟩

theorem apply_effect (t : Tally) (call : Call) : t.Effect call (t.apply call) := by
  cases call with
  | register info =>
    simp only [apply]
    split
    · exact .registered ‹_›
    · exact .quiet (.refl _) (by simp)
  | unregister id => exact .quiet (.unregister ..) (by simp)
  | drop id => exact .quiet (.drop ..) (by simp)
  | blacklist id => exact .quiet (.blacklist ..) (by simp)
  | beginRequest id c =>
    simp only [apply]
    split
    · exact .begun ‹_›
    · exact .quiet (.refl _) (by simp)
  | release index =>
    simp only [apply]
    split
    · exact .released ‹_›
    · rename_i missing
      refine .quiet (.refl _) ?_
      rintro _ x ⟨⟩
      simp [missing]
  | recordDelivery id c items elapsed => exact .quiet (.recordDelivery ..) (by simp)
  | recordTimeout id c => exact .quiet (.recordTimeout ..) (by simp)

section Holdings

variable (held : List Holding) (id id' : PeerId) (c d : Category)

theorem count_outdate : (held.map (·.outdate id)).count ⟨⟨id', c⟩, true⟩ =
    if id' = id then 0 else held.count ⟨⟨id', c⟩, true⟩ := by
  induction held with
  | nil => simp
  | cons x held ih =>
    obtain ⟨⟨peer, category⟩, current⟩ := x
    rw [List.map_cons, List.count_cons, List.count_cons, ih]
    by_cases same : peer = id
    · subst same
      by_cases last : id' = peer
      · simp [Holding.outdate, last]
      · simp [Holding.outdate, last, Ne.symm last]
    · by_cases last : id' = id
      · subst last
        simp [Holding.outdate, same]
      · simp [Holding.outdate, same, last]

theorem count_begun : (held ++ [(⟨⟨id, c⟩, true⟩ : Holding)]).count ⟨⟨id', d⟩, true⟩ =
    held.count ⟨⟨id', d⟩, true⟩ + if id' = id ∧ d = c then 1 else 0 := by
  rw [List.count_append, List.count_singleton]
  congr 1
  by_cases same : id' = id ∧ d = c
  · simp [same]
  · rw [if_neg same, if_neg]
    intro heq
    cases beq_iff_eq.mp heq
    exact same ⟨rfl, rfl⟩

variable {held id c} {index : Nat} {x : Holding}

theorem count_released (h : held[index]? = some x) : held.count ⟨⟨id, c⟩, true⟩ =
    (held.eraseIdx index).count ⟨⟨id, c⟩, true⟩ +
      if x.current = true ∧ id = x.slot.peer ∧ c = x.slot.category then 1 else 0 := by
  obtain ⟨bound, rfl⟩ := List.getElem?_eq_some_iff.mp h
  rw [← (List.getElem_cons_eraseIdx_perm bound).count_eq, List.count_cons]
  congr 1
  generalize held[index] = x
  obtain ⟨⟨peer, category⟩, current⟩ := x
  by_cases same : current = true ∧ id = peer ∧ c = category
  · simp [same]
  · rw [if_neg same, if_neg]
    intro heq
    cases beq_iff_eq.mp heq
    exact same ⟨rfl, rfl, rfl⟩

end Holdings

/-- How a counter and the slots that it stands for move, by one operation. -/
theorem apply_counts (h : t.Bounded limit) (call : Call) {p' : SyncPeer}
    (hp' : p' ∈ (t.apply call).set.peers) (d : Category) :
    (p'.inFlight.get d = 0 ∧ (t.apply call).holds p'.id d = 0) ∨
      ∃ p ∈ t.set.peers, p'.id = p.id ∧
        ((p'.inFlight.get d = p.inFlight.get d ∧ (t.apply call).holds p.id d = t.holds p.id d) ∨
        (p'.inFlight.get d = p.inFlight.get d + 1 ∧ p.inFlight.get d < limit ∧
          (t.apply call).holds p.id d = t.holds p.id d + 1) ∨
        (p'.inFlight.get d = p.inFlight.get d - 1 ∧
          (t.apply call).holds p.id d + 1 = t.holds p.id d) ∨
        (p'.inFlight.get d = p.inFlight.get d - 1 ∧
          (t.apply call).holds p.id d = t.holds p.id d ∧
            (0 < p.inFlight.get d → t.Untimely call))) := by
  have effect := t.apply_effect call
  generalize t.apply call = after at effect hp' ⊢
  cases effect with
  | quiet quiet unreleased =>
    obtain ⟨p, hp, hid, hcount⟩ := quiet.peers p' hp'
    exact .inr ⟨p, hp, hid, .inl ⟨by rw [hcount], rfl⟩⟩
  | @registered info set registered =>
    obtain ⟨unknown, -, new, hnew, free, perm⟩ := register_ok registered
    have outdated := count_outdate t.held info.id
    rcases List.mem_cons.mp (perm.mem_iff.mp hp') with rfl | hp
    · exact .inl ⟨free d, (outdated _ d).trans (if_pos hnew)⟩
    · have other : p'.id ≠ info.id := by
        rintro same
        exact unknown (same ▸ List.mem_map_of_mem hp)
      exact .inr ⟨p', hp, rfl, .inl ⟨rfl, (outdated _ d).trans (if_neg other)⟩⟩
  | @begun id c slot set begun =>
    obtain ⟨rfl, ⟨q, hq, hqid, below⟩, rfl⟩ := beginRequest_ok begun
    obtain ⟨p, hp, rfl⟩ := List.mem_map.mp (peers_recount .. ▸ hp')
    have counter := get_recount id c (· + 1) p d
    have more := count_begun t.held id p.id c d
    refine .inr ⟨p, hp, id_recount .., ?_⟩
    by_cases same : p.id = id ∧ d = c
    · rw [if_pos same] at more
      obtain rfl := List.inj_on_of_nodup_map h.unique hp hq (same.1.trans hqid.symm)
      rw [h.limit_eq, ← same.2] at below
      exact .inr (.inl ⟨counter.trans (if_pos same), below, more⟩)
    · rw [if_neg same] at more
      exact .inl ⟨counter.trans (if_neg same), more⟩
  | @released index x found =>
    obtain ⟨p, hp, rfl⟩ := List.mem_map.mp (peers_recount .. ▸ hp')
    have counter := get_recount x.slot.peer x.slot.category (· - 1) p d
    have fewer : t.holds p.id d = _ := count_released found
    refine .inr ⟨p, hp, id_recount .., ?_⟩
    by_cases same : p.id = x.slot.peer ∧ d = x.slot.category
    · have less := counter.trans (if_pos same)
      cases hcurrent : x.current with
      | true =>
        rw [if_pos ⟨hcurrent, same⟩] at fewer
        exact .inr (.inr (.inl ⟨less, fewer.symm⟩))
      | false =>
        rw [if_neg (by simp [hcurrent])] at fewer
        refine .inr (.inr (.inr ⟨less, fewer.symm, fun busy => ?_⟩))
        exact ⟨index, x, p, rfl, found, hcurrent, hp, same.1, same.2 ▸ busy⟩
    · rw [if_neg fun h => same h.2] at fewer
      exact .inl ⟨counter.trans (if_neg same), fewer.symm⟩

theorem bounded_apply (h : t.Bounded limit) (call : Call) : (t.apply call).Bounded limit := by
  have counts {p' : SyncPeer} (hp' : p' ∈ (t.apply call).set.peers) (d : Category) :
      p'.inFlight.get d ≤ (t.apply call).holds p'.id d ∧ p'.inFlight.get d ≤ limit := by
    rcases apply_counts h call hp' d with ⟨zero, -⟩ | ⟨p, hp, hid, moved⟩
    · omega
    · have held := h.held p hp d
      have bound := h.bound p hp d
      rw [hid]
      omega
  refine ⟨?_, ?_, fun p hp d => (counts hp d).1, fun p hp d => (counts hp d).2⟩
  · have effect := t.apply_effect call
    generalize t.apply call = after at effect
    cases effect with
    | quiet quiet unreleased => exact h.unique.sublist quiet.ids
    | registered registered =>
      obtain ⟨unknown, -, new, hnew, -, perm⟩ := register_ok registered
      have hperm := perm.map SyncPeer.id
      rw [List.map_cons, hnew] at hperm
      exact hperm.nodup_iff.mpr (List.nodup_cons.mpr ⟨unknown, h.unique⟩)
    | begun begun =>
      rw [ids_beginRequest begun]
      exact h.unique
    | released found =>
      rw [ids_release]
      exact h.unique
  · have effect := t.apply_effect call
    generalize t.apply call = after at effect
    cases effect with
    | quiet quiet unreleased => exact quiet.config ▸ h.limit_eq
    | registered registered => exact (register_ok registered).2.1 ▸ h.limit_eq
    | begun begun =>
      obtain ⟨-, -, rfl⟩ := beginRequest_ok begun
      exact h.limit_eq
    | released found => exact h.limit_eq

theorem exact_apply (h : t.Bounded limit) (counted : t.Exact) (call : Call) :
    (t.apply call).Exact ↔ ¬ t.Untimely call := by
  constructor
  · rintro counted' ⟨index, x, p, rfl, found, outdated, hp, hid, busy⟩
    have same : t.apply (.release index) = ⟨t.set.release x.slot, t.held.eraseIdx index⟩ := by
      simp only [apply, found]
    rw [same] at counted'
    have fewer : t.holds p.id x.slot.category = _ := count_released found
    rw [if_neg (by simp [outdated])] at fewer
    have hmem : recount x.slot.peer x.slot.category (· - 1) p ∈ (t.set.release x.slot).peers :=
      List.mem_map_of_mem hp
    have less := counted' _ hmem x.slot.category
    rw [id_recount] at less
    have counter := get_recount x.slot.peer x.slot.category (· - 1) p x.slot.category
    rw [if_pos ⟨hid, rfl⟩] at counter
    have now := counted p hp x.slot.category
    have after : (⟨t.set.release x.slot, t.held.eraseIdx index⟩ : Tally).holds p.id
        x.slot.category = t.holds p.id x.slot.category := fewer.symm
    omega
  · intro timely p' hp' d
    rcases apply_counts h call hp' d with ⟨zero, none_held⟩ | ⟨p, hp, hid, moved⟩
    · exact zero.trans none_held.symm
    · have now := counted p hp d
      rw [hid]
      rcases moved with moved | moved | moved | ⟨less, same, untimely⟩
      · omega
      · omega
      · omega
      · have idle : ¬ 0 < p.inFlight.get d := fun busy => timely (untimely busy)
        omega

theorem bounded_run (h : t.Bounded limit) (calls : List Call) : (t.run calls).Bounded limit := by
  induction calls generalizing t with
  | nil => exact h
  | cons call calls ih => exact ih (bounded_apply h call)

theorem run_concat (t : Tally) (calls : List Call) (last : Call) :
    t.run (calls ++ [last]) = (t.run calls).apply last := by
  rw [run, List.foldl_append]
  rfl

theorem exact_run (h : t.Bounded limit) (counted : t.Exact) {calls : List Call}
    (timely : ∀ before call after, calls = before ++ call :: after →
      ¬ (t.run before).Untimely call) : (t.run calls).Exact := by
  induction calls generalizing t with
  | nil => exact counted
  | cons call calls ih =>
    have counted' := (exact_apply h counted call).mpr (timely [] call calls rfl)
    refine ih (bounded_apply h call) counted' fun before next after split => ?_
    exact timely (call :: before) next after (by rw [split, List.cons_append])

/-- The slots of an empty set. -/
def empty (config : Config) : Tally := ⟨.ofConfig config, []⟩

theorem bounded_empty (config : Config) :
    (empty config).Bounded config.maxInFlightPerPeer.toNat :=
  ⟨List.nodup_nil, rfl, by simp [empty, ofConfig], by simp [empty, ofConfig]⟩

theorem exact_empty (config : Config) : (empty config).Exact := by simp [Exact, empty, ofConfig]

/-- No counter is ever ahead of the slots held of its peer since it last registered, or above the
limit. All counters are right all the time exactly if no outdated slot is given back while its peer,
back again, has requests of the kind under way. -/
theorem in_flight_counts_held_slots (config : Config) (calls : List Call) :
    (∀ p ∈ ((empty config).run calls).set.peers, ∀ c,
      p.inFlight.get c ≤ ((empty config).run calls).holds p.id c ∧
        p.inFlight.get c ≤ config.maxInFlightPerPeer.toNat) ∧
    ((∀ before after, calls = before ++ after → ((empty config).run before).Exact) ↔
      ∀ before call after, calls = before ++ call :: after →
        ¬ ((empty config).run before).Untimely call) := by
  have bounded (calls : List Call) := bounded_run (bounded_empty config) calls
  refine ⟨fun p hp c => ⟨(bounded calls).held p hp c, (bounded calls).bound p hp c⟩, ?_, ?_⟩
  · intro counted before call after split
    have now := counted before (call :: after) split
    have next := counted (before ++ [call]) after (by simp [split])
    rw [run_concat] at next
    exact (exact_apply (bounded before) now call).mp next
  · intro timely before after split
    refine exact_run (bounded_empty config) (exact_empty config) fun earlier call later heq => ?_
    exact timely earlier call (later ++ after) (by simp [split, heq])

/-- A peer leaves with a request under way, comes back and is asked again; only then is the first
slot given back. -/
def comeback : List Call :=
  let info : PeerInfo :=
    { id := 1, version := 68, headHash := 0, head := 0, totalDifficulty := .ofNat 0
      forkId := none, connection := 0 }
  [.register info, .beginRequest 1 .bodies, .unregister 1, .register info, .beginRequest 1 .bodies,
    .release 0]

/-- The old slot frees the new one, and a peer that takes one request at a time has two. -/
theorem outdated_slot_frees_another :
    ({} : Config).maxInFlightPerPeer = 1 ∧ ((empty {}).run comeback).holds 1 .bodies = 1 ∧
      ¬ ((empty {}).run comeback).Exact ∧
        ((empty {}).run (comeback ++ [.beginRequest 1 .bodies])).holds 1 .bodies = 2 := by
  have held : ((empty {}).run comeback).holds 1 .bodies = 1 := rfl
  obtain ⟨p, hp, hid, free⟩ : ∃ p, p ∈ ((empty {}).run comeback).set.peers ∧ p.id = 1 ∧
      p.inFlight.get .bodies = 0 := ⟨_, List.mem_cons_self .., rfl, rfl⟩
  refine ⟨rfl, held, fun counted => ?_, rfl⟩
  have now := counted p hp .bodies
  rw [hid, free, held] at now
  cases now

end Tally
end PeerSet
end ChainSync
