import Mathlib.Data.List.Sort
import ChainSync.Proofs.Peer.Rank
set_option autoImplicit false

/-!
The master is the first compatible peer in the order of the peers, and choosing it drops those
before it.
-/

namespace ChainSync

namespace SyncPeer

/-- A measured round trip is nearer than a longer one, and than none. -/
def Nearer (a b : SyncPeer) : Prop :=
  ∃ x, a.rtt = some x ∧ ∀ y, b.rtt = some y → x < y

/-- Who comes first: whoever has more total difficulty, then the nearer one, then the lower id. -/
inductive Outranks (a b : SyncPeer) : Prop where
  | heavier (more : b.info.totalDifficulty.toNat < a.info.totalDifficulty.toNat)
  | nearer (level : a.info.totalDifficulty = b.info.totalDifficulty) (near : a.Nearer b)
  | lower (level : a.info.totalDifficulty = b.info.totalDifficulty) (equal : a.rtt = b.rtt)
      (less : a.id.toNat < b.id.toNat)

variable {a b c : SyncPeer}

theorem roundTrips_eq_gt : a.roundTrips b = .gt ↔ a.Nearer b := by
  unfold roundTrips Nearer
  rcases a.rtt with - | x <;> rcases b.rtt with - | y <;> simp [Nat.compare_eq_gt]
  exact Iff.rfl

theorem roundTrips_eq_eq : a.roundTrips b = .eq ↔ a.rtt = b.rtt := by
  unfold roundTrips
  rcases a.rtt with - | ⟨⟨x⟩⟩ <;> rcases b.rtt with - | ⟨⟨y⟩⟩ <;> simp
  exact eq_comm

theorem rank_eq_gt : a.rank b = .gt ↔ a.Outranks b := by
  have level : compare a.info.totalDifficulty.toNat b.info.totalDifficulty.toNat = .eq ↔
      a.info.totalDifficulty = b.info.totalDifficulty :=
    Nat.compare_eq_eq.trans ⟨U256.toNat_inj, congrArg _⟩
  change (_ : Ordering).then ((a.roundTrips b).then _) = _ ↔ _
  simp only [Ordering.then_eq_gt, level, roundTrips_eq_gt, roundTrips_eq_eq, Nat.compare_eq_gt]
  constructor
  · rintro (more | ⟨level, near | ⟨equal, less⟩⟩)
    · exact .heavier more
    · exact .nearer level near
    · exact .lower level equal less
  · rintro (more | ⟨level, near⟩ | ⟨level, equal, less⟩)
    · exact .inl more
    · exact .inr ⟨level, .inl near⟩
    · exact .inr ⟨level, .inr ⟨equal, less⟩⟩

theorem Outranks.irrefl : ¬a.Outranks a := by
  have self : rank a a = .eq := Std.ReflCmp.compare_self
  rw [← rank_eq_gt, self]
  simp

theorem Outranks.trans (first : a.Outranks b) (second : b.Outranks c) : a.Outranks c := by
  rw [← rank_eq_gt] at *
  exact Std.TransCmp.gt_trans first second

theorem Outranks.asymm (first : a.Outranks b) : ¬b.Outranks a :=
  fun second => (first.trans second).irrefl

end SyncPeer

namespace PeerSet

variable {s s' : PeerSet} {p q : SyncPeer}

theorem outranks_of_best? (best : s.best? = some p) (hq : q ∈ s.peers)
    (live : q.live = true) (other : q.id ≠ p.id) : p.Outranks q :=
  SyncPeer.rank_eq_gt.mp
    (Ordering.isGT_iff_eq_gt.mp (SyncPeer.rank_gt (isGE_best? best hq live) other))

/-- A run of the loop that chooses a master: whom it drops, the peers it leaves, and its result. -/
inductive Selecting :
    PeerSet → List SyncPeer → PeerSet → Except SyncError SyncPeer → Prop where
  | nobody {s : PeerSet} (nobody : s.best? = none) : Selecting s [] s (.error .noUsablePeers)
  | found {s : PeerSet} {p : SyncPeer} (best : s.best? = some p)
    (compatible : s.isForkCompatible p = true) : Selecting s [] s (.ok p)
  | next {s s' : PeerSet} {p : SyncPeer} {gone : List SyncPeer} {r : Except SyncError SyncPeer}
    (best : s.best? = some p) (incompatible : s.isForkCompatible p = false)
    (rest : Selecting (s.drop p.id) gone s' r) : Selecting s (p :: gone) s' r

/-- The set once some peers were dropped, each of which is announced. -/
def without (s : PeerSet) (gone : List SyncPeer) : PeerSet :=
  { s with
    peers := s.peers.map fun p =>
      if (gone.map SyncPeer.id).contains p.id then { p with state := .dropped } else p
    events := gone.foldl (fun bus p => (bus.publish (.dropped p.id)).2) s.events }

/-- What choosing a master comes to: the first compatible one of the live peers, if any is, once
those before it were dropped. -/
structure Selects (s : PeerSet) (gone : List SyncPeer) (s' : PeerSet)
    (r : Except SyncError SyncPeer) : Prop where
  first : ∀ p, r = .ok p → p ∈ s.peers ∧ p.live = true ∧ s.isForkCompatible p = true ∧
    ∀ q ∈ s.peers, q.live = true → s.isForkCompatible q = true → q.id ≠ p.id → p.Outranks q
  nobody : ∀ err, r = .error err → err = .noUsablePeers ∧
    ∀ q ∈ s.peers, q.live = true → s.isForkCompatible q = false
  ordered : gone.Pairwise SyncPeer.Outranks
  mem_gone : ∀ q, q ∈ gone ↔ q ∈ s.peers ∧ q.live = true ∧ s.isForkCompatible q = false ∧
    ∀ p, r = .ok p → q.Outranks p
  dropped : s' = s.without gone

theorem mem_drop_live (unique : s.ids.Nodup) (live : q.live = true) :
    q ∈ (s.drop p.id).peers ↔ q ∈ s.peers ∧ q.id ≠ p.id :=
  ⟨fun hq => ⟨mem_of_drop hq live, ne_of_drop unique hq live⟩, fun hq => mem_drop hq.1 hq.2⟩

theorem without_drop (unique : s.ids.Nodup) (hp : p ∈ s.peers) (live : p.live = true)
    (gone : List SyncPeer) : (s.drop p.id).without gone = s.without (p :: gone) := by
  have found := (get?_eq_some unique).mpr ⟨hp, rfl⟩
  simp only [drop, found, live, if_true, without, modify, publish, List.map_map, List.foldl_cons,
    PeerSet.mk.injEq, true_and, and_true]
  refine List.map_congr_left fun q _ => ?_
  have kept : ({ q with state := .dropped } : SyncPeer).id = q.id := rfl
  by_cases same : q.id = p.id
  · simp [kept, same]
  · simp [same]

theorem Selecting.selects {gone : List SyncPeer} {r : Except SyncError SyncPeer}
    (run : Selecting s gone s' r) (unique : s.ids.Nodup) : s.Selects gone s' r := by
  induction run with
  | @nobody s nobody =>
    have gone (q : SyncPeer) (hq : q ∈ s.peers) : ¬q.live = true := fun live =>
      best?_isSome hq live nobody
    exact {
      first := by simp
      nobody := fun err failed => ⟨by cases failed; rfl, fun q hq live => absurd live (gone q hq)⟩
      ordered := .nil
      mem_gone := fun q => by simpa using fun hq live => absurd live (gone q hq)
      dropped := by simp [without] }
  | @found s p best compatible =>
    obtain ⟨hp, live⟩ := best?_mem best
    exact {
      first := by
        rintro _ ⟨⟩
        exact ⟨hp, live, compatible, fun q hq hlive _ => outranks_of_best? best hq hlive⟩
      nobody := by simp
      ordered := .nil
      mem_gone := fun q => by
        simp only [List.not_mem_nil, false_iff]
        rintro ⟨hq, hlive, other, above⟩
        have differ : q.id ≠ p.id := by
          intro same
          rw [eq_of_id_eq unique hq hp same, compatible] at other
          cases other
        exact (above p rfl).asymm (outranks_of_best? best hq hlive differ)
      dropped := by simp [without] }
  | @next s s' p gone r best incompatible rest ih =>
    obtain ⟨hp, live⟩ := best?_mem best
    obtain ⟨first, nobody, ordered, mem_gone, dropped⟩ := ih (by simpa using unique)
    simp only [isForkCompatible_drop] at first nobody mem_gone
    -- the live peers afterwards are the others
    have others {q : SyncPeer} (hlive : q.live = true) := mem_drop_live (p := p) unique hlive
    have above {q : SyncPeer} (hlive : q.live = true) (hq : q ∈ (s.drop p.id).peers) :
        p.Outranks q :=
      outranks_of_best? best ((others hlive).mp hq).1 hlive ((others hlive).mp hq).2
    have differ {q : SyncPeer} (hq : q ∈ s.peers) (compatible : s.isForkCompatible q = true) :
        q.id ≠ p.id := by
      intro same
      rw [eq_of_id_eq unique hq hp same, incompatible] at compatible
      cases compatible
    exact {
      first := by
        intro m chosen
        obtain ⟨hm, mlive, compatible, highest⟩ := first m chosen
        refine ⟨((others mlive).mp hm).1, mlive, compatible, fun q hq qlive qcompatible => ?_⟩
        exact highest q ((others qlive).mpr ⟨hq, differ hq qcompatible⟩) qlive qcompatible
      nobody := by
        intro err failed
        obtain ⟨same, alone⟩ := nobody err failed
        refine ⟨same, fun q hq qlive => ?_⟩
        by_cases known : q.id = p.id
        · rw [eq_of_id_eq unique hq hp known, incompatible]
        · exact alone q ((others qlive).mpr ⟨hq, known⟩) qlive
      ordered := List.pairwise_cons.mpr
        ⟨fun q hq => above ((mem_gone q).mp hq).2.1 ((mem_gone q).mp hq).1, ordered⟩
      mem_gone := by
        intro q
        rw [List.mem_cons, mem_gone]
        constructor
        · rintro (rfl | ⟨hq, qlive, rest⟩)
          · exact ⟨hp, live, incompatible, fun m chosen =>
              above (first m chosen).2.1 (first m chosen).1⟩
          · exact ⟨((others qlive).mp hq).1, qlive, rest⟩
        · rintro ⟨hq, qlive, rest⟩
          by_cases known : q.id = p.id
          · exact .inl (eq_of_id_eq unique hq hp known)
          · exact .inr ⟨(others qlive).mpr ⟨hq, known⟩, qlive, rest⟩
      dropped := by rw [dropped, without_drop unique hp live] }

/-- The loop is over before it runs out of live peers. -/
theorem selecting_selectMaster {fuel : Nat} (unique : s.ids.Nodup)
    (enough : s.livePeers.length < fuel) :
    ∃ gone, Selecting s gone (Attempt.selectMaster fuel s).1 (Attempt.selectMaster fuel s).2 := by
  induction fuel generalizing s with
  | zero => omega
  | succ fuel ih =>
    unfold Attempt.selectMaster
    split
    · exact ⟨[], .nobody ‹_›⟩
    · rename_i p best
      split
      · exact ⟨[], .found best ‹_›⟩
      · rename_i incompatible
        have fewer := length_livePeers_drop unique (best?_mem best).1 (best?_mem best).2
        obtain ⟨gone, rest⟩ := ih (by simpa using unique) (Nat.lt_of_lt_of_le fewer (by omega))
        exact ⟨p :: gone, .next best (by simpa using incompatible) rest⟩

theorem selectMaster_selects {fuel : Nat} (unique : s.ids.Nodup)
    (enough : s.livePeers.length < fuel) :
    ∃ gone r, Attempt.selectMaster fuel s = (s.without gone, r) ∧
      Selecting s gone (s.without gone) r ∧ s.Selects gone (s.without gone) r := by
  obtain ⟨gone, run⟩ := selecting_selectMaster unique enough
  have selected := run.selects unique
  have left := selected.dropped
  rw [left] at run selected
  exact ⟨gone, _, Prod.ext left rfl, run, selected⟩

variable {t t' : PeerSet} {gone gone' : List SyncPeer} {r r' : Except SyncError SyncPeer}

theorem isForkCompatible_congr (filter : t.forkFilter = s.forkFilter) (q : SyncPeer) :
    t.isForkCompatible q = s.isForkCompatible q := by
  simp only [isForkCompatible, forkVerdict, filter]

/-- Who is chosen and who is dropped is settled by which peers there are. -/
theorem Selects.unique (selected : s.Selects gone s' r) (selected' : t.Selects gone' t' r')
    (unique : s.ids.Nodup) (members : ∀ q, q ∈ t.peers ↔ q ∈ s.peers)
    (filter : t.forkFilter = s.forkFilter) : r' = r ∧ gone' = gone := by
  have verdict := isForkCompatible_congr filter
  have chosen : r' = r := by
    cases r with
    | error err =>
      obtain ⟨rfl, alone⟩ := selected.nobody err rfl
      cases r' with
      | error err' => rw [(selected'.nobody err' rfl).1]
      | ok p' =>
        obtain ⟨hp, live, compatible, -⟩ := selected'.first p' rfl
        have other := alone p' ((members p').mp hp) live
        rw [← verdict, compatible] at other
        cases other
    | ok p =>
      obtain ⟨hp, live, compatible, above⟩ := selected.first p rfl
      cases r' with
      | error err' =>
        have other := (selected'.nobody err' rfl).2 p ((members p).mpr hp) live
        rw [verdict, compatible] at other
        cases other
      | ok p' =>
        obtain ⟨hp', live', compatible', above'⟩ := selected'.first p' rfl
        by_cases same : p'.id = p.id
        · rw [eq_of_id_eq unique ((members p').mp hp') hp same]
        · -- each of the two would come before the other
          have lower := above p' ((members p').mp hp') live' (verdict p' ▸ compatible') same
          have higher := above' p ((members p).mpr hp) live ((verdict p).trans compatible)
            (Ne.symm same)
          exact absurd higher lower.asymm
  have irrefl : Std.Irrefl SyncPeer.Outranks := ⟨fun _ => SyncPeer.Outranks.irrefl⟩
  have asymm : Std.Antisymm SyncPeer.Outranks :=
    ⟨fun _ _ first second => absurd second first.asymm⟩
  refine ⟨chosen, selected'.ordered.eq_of_mem_iff selected.ordered fun q => ?_⟩
  rw [selected'.mem_gone, selected.mem_gone, members, verdict, chosen]

theorem Selects.nobody_iff (selected : s.Selects gone s' r) : r = .error .noUsablePeers ↔
    ∀ q ∈ s.peers, q.live = true → s.isForkCompatible q = false := by
  constructor
  · intro failed
    exact (selected.nobody _ failed).2
  · intro alone
    cases r with
    | error err => rw [(selected.nobody err rfl).1]
    | ok p =>
      obtain ⟨hp, live, compatible, -⟩ := selected.first p rfl
      rw [alone p hp live] at compatible
      cases compatible

/-- Without anybody to choose, nobody is left. -/
theorem Selects.livePeers_eq_nil (selected : s.Selects gone s' r)
    (failed : r = .error .noUsablePeers) : s'.livePeers = [] := by
  rw [selected.dropped, livePeers, List.filter_eq_nil_iff]
  intro q hq live
  obtain ⟨p, hp, rfl⟩ := List.mem_map.mp hq
  split at live
  · cases live
  · rename_i kept
    have dropped : p ∈ gone :=
      (selected.mem_gone p).mpr ⟨hp, live, (selected.nobody _ failed).2 p hp live, by simp [failed]⟩
    exact kept (by simpa using ⟨p, dropped, rfl⟩)

/-- Whatever the peers and the fork filter, the loop ends and comes to the first compatible live
peer; those dropped are the incompatible ones before it, all of them if there is no such peer, and
each is announced once. In whichever order the peers are gone through, the same one is chosen and
the same ones are dropped. -/
theorem master_is_first_compatible (unique : s.ids.Nodup) {l : List SyncPeer}
    (reordered : l.Perm s.peers) :
    ∃ gone r, Selecting s gone (s.without gone) r ∧ s.Selects gone (s.without gone) r ∧
      (r = .error .noUsablePeers ↔
        ∀ q ∈ s.peers, q.live = true → s.isForkCompatible q = false) ∧
      (r = .error .noUsablePeers → (s.without gone).livePeers = []) ∧
      let t : PeerSet := { s with peers := l }
      ∀ fuel, l.length < fuel → Attempt.selectMaster fuel t = (t.without gone, r) := by
  obtain ⟨gone, r, -, run, selected⟩ := selectMaster_selects unique (Nat.lt_succ_self _)
  refine ⟨gone, r, run, selected, selected.nobody_iff, selected.livePeers_eq_nil,
    fun fuel enough => ?_⟩
  have unique' : ({ s with peers := l } : PeerSet).ids.Nodup :=
    (reordered.map SyncPeer.id).nodup_iff.mpr unique
  obtain ⟨gone', r', result, -, selected'⟩ := selectMaster_selects unique'
    (Nat.lt_of_le_of_lt (List.length_filter_le ..) enough)
  obtain ⟨rfl, rfl⟩ := selected.unique selected' unique (fun _ => reordered.mem_iff) rfl
  exact result

/-- A peer that is one block ahead, on the fork of a checksum. -/
def contender (id : PeerId) (difficulty : Nat) (rtt : Option Duration) (checksum : UInt32) :
    SyncPeer where
  info :=
    { id, version := 68, headHash := 0, head := 1, totalDifficulty := .ofNat difficulty
      forkId := some ⟨checksum, 0⟩, connection := id.toNat }
  state := .idle
  inFlight := .const 0
  throughput := .const 100.0
  rtt := rtt
  consecutiveTimeouts := 0

/-- The heaviest peer and the nearest one are on another fork, and somebody listens. -/
def contenders : PeerSet where
  config := {}
  peers := [contender 1 9 none 8, contender 2 5 none 7, contender 3 5 (some (.ofMillis 20)) 7,
    contender 4 5 (some (.ofMillis 10)) 8]
  forkFilter := some ⟨[], [7], 0⟩
  events := EventBus.empty.subscribe.2

theorem master_is_first_compatible_third :
    let s := contenders
    let t : PeerSet := { s with peers := s.peers.reverse }
    s.ids.Nodup ∧ t.peers.Perm s.peers ∧
    ∃ gone r, Selecting s gone (s.without gone) r ∧ s.Selects gone (s.without gone) r ∧
      Attempt.selectMaster 5 t = (t.without gone, r) ∧ r.toOption.map SyncPeer.id = some 3 ∧
      (t.without gone).events.backlog 0 = [.dropped 1, .dropped 4] := by
  intro s t
  have unique : s.ids.Nodup := by decide
  have reordered : t.peers.Perm s.peers := List.reverse_perm _
  obtain ⟨gone, r, run, selected, -, -, result⟩ := master_is_first_compatible unique reordered
  have chosen : (Attempt.selectMaster 5 t).2.toOption.map SyncPeer.id = some 3 := by decide +kernel
  have told : (Attempt.selectMaster 5 t).1.events.backlog 0 = [.dropped 1, .dropped 4] := by
    decide +kernel
  have settled := result 5 (by decide)
  rw [settled] at chosen told
  exact ⟨unique, reordered, gone, r, run, selected, settled, chosen, told⟩

end PeerSet
end ChainSync
