import ChainSync.Proofs.Peer.Rank
import ChainSync.Proofs.Session.Voyage
import ChainSync.Proofs.Session.Waning
set_option autoImplicit false

/-!
A session attempt by attempt: whom each could choose as its master, how it ended, and who was
dropped for it.
-/

namespace ChainSync

open Fetch

/-- An attempt that came to its end. -/
structure Trial where
  /-- The peers that it chose its master from. -/
  pool : PeerSet
  result : Except SyncError Unit
  /-- The peers when it ended, and those that it left. -/
  peers : PeerSet
  left : PeerSet

namespace Trial

def master? (t : Trial) : Option SyncPeer := t.pool.choice

/-- It ended by a failure of its master. -/
def Failed (t : Trial) : Prop := ∃ err, t.result = .error err ∧ err.isMasterFailure = true

/-- A failure of the master names it, and it is dropped unless it is gone or was dropped already.
For anything else nobody is dropped. -/
structure Judged (t : Trial) : Prop where
  blamed : ∀ err, t.result = .error err → err.isMasterFailure = true →
    ∃ p, t.master? = some p ∧ err.peer? = some p.id ∧ t.left = t.peers.drop p.id
  spared : ¬ t.Failed → t.left = t.peers

/-- Another attempt begins with the peers that this one left. -/
def Leads (t u : Trial) : Prop := t.Failed ∧ u.pool = t.left

theorem judged_failed {pool peers : PeerSet} {p : SyncPeer} {err : SyncError}
    (chosen : pool.choice = some p) (blamed : err.Blames p.id) :
    Judged ⟨pool, .error err, peers, peers.drop p.id⟩ := by
  refine ⟨?_, fun unfailed => absurd ⟨err, rfl, blamed.failure⟩ unfailed⟩
  rintro _ ⟨⟩ -
  exact ⟨p, chosen, blamed.named, rfl⟩

theorem judged_other {pool peers : PeerSet} {result : Except SyncError Unit}
    (other : ∀ err, result = .error err → err.isMasterFailure = false) :
    Judged ⟨pool, result, peers, peers⟩ := by
  refine ⟨fun err failed failure => ?_, fun _ => rfl⟩
  rw [other err failed] at failure
  cases failure

end Trial

namespace Session

variable {σ : Type}

/-- The attempts that a step ends, in order, and the peers that the attempt then under way began
with, by the peers that the attempt of the step began with and the number of attempts left. -/
def trials (env : Surroundings) (o : Order) :
    Nat → PeerSet → Attempt.Step σ → List Trial × Option PeerSet
  | _, pool, (_, .ok (some _)) => ([], some pool)
  | _, pool, (h, .ok none) => ([⟨pool, .ok (), h.peers, h.peers⟩], none)
  | n, pool, (h, .error err) =>
    if err.isMasterFailure then
      let left := dropBlamed h err
      let trial : Trial := ⟨pool, .error err, h.peers, left.peers⟩
      match n with
      | 0 => ([trial], none)
      | n + 1 =>
        let (ended, now) := trials env o n left.peers (Attempt.begin env o.mode o.target left)
        (trial :: ended, now)
    else ([⟨pool, .error err, h.peers, h.peers⟩], none)

/-- What a session makes of a step of its attempt, and the attempts that end by it. -/
inductive Logged (env : Surroundings) (o : Order) : Nat → PeerSet → Attempt.Step σ →
    List Trial × Option PeerSet → Hub σ × (Session ⊕ Except SyncError Unit) → Prop where
  | going (n : Nat) (pool : PeerSet) (h : Hub σ) (attempt : Attempt) (stage : Stage) :
    Logged env o n pool (h, .ok (some (attempt, stage))) ([], some pool)
      (h, .inl ⟨o.id, o.mode, o.target, n, attempt, stage⟩)
  | done (n : Nat) (pool : PeerSet) (h : Hub σ) :
    Logged env o n pool (h, .ok none) ([⟨pool, .ok (), h.peers, h.peers⟩], none) (h, .inr (.ok ()))
  | failed (n : Nat) (pool : PeerSet) (h : Hub σ) {err : SyncError}
      (other : err.isMasterFailure = false) :
    Logged env o n pool (h, .error err) ([⟨pool, .error err, h.peers, h.peers⟩], none)
      (h, .inr (.error err))
  | last (pool : PeerSet) (h : Hub σ) {err : SyncError} {master : PeerId}
      (blamed : err.Blames master) :
    Logged env o 0 pool (h, .error err) ([⟨pool, .error err, h.peers, h.peers.drop master⟩], none)
      (h.setPeers (h.peers.drop master), .inr (.error err))
  | next {n : Nat} (pool : PeerSet) {h : Hub σ} {err : SyncError} {master : PeerId}
      {log : List Trial × Option PeerSet} {out : Hub σ × (Session ⊕ Except SyncError Unit)}
      (blamed : err.Blames master)
      (rest : Logged env o n (h.peers.drop master)
        (Attempt.begin env o.mode o.target (h.setPeers (h.peers.drop master))) log out) :
    Logged env o (n + 1) pool (h, .error err)
      (⟨pool, .error err, h.peers, h.peers.drop master⟩ :: log.1, log.2) out

theorem resolve_logged {env : Surroundings} {o : Order} (n : Nat) (pool : PeerSet)
    (out : Attempt.Step σ) : Logged env o n pool out (trials env o n pool out)
      (resolve env o n out) := by
  induction n generalizing pool out with
  | zero =>
    obtain ⟨h, result⟩ := out
    match result with
    | .ok (some (attempt, stage)) => exact .going ..
    | .ok none => exact .done ..
    | .error err =>
      by_cases failure : err.isMasterFailure = true
      · obtain ⟨peer, blamed⟩ := master_failure failure
        have logged : Logged env o 0 pool (h, .error err) _ _ := .last pool h blamed
        simpa [resolve, trials, dropBlamed, Hub.setPeers, blamed.failure, blamed.named] using logged
      · rw [Bool.not_eq_true] at failure
        simpa [resolve, trials, failure] using Logged.failed 0 pool h failure
  | succ n ih =>
    obtain ⟨h, result⟩ := out
    match result with
    | .ok (some (attempt, stage)) => exact .going ..
    | .ok none => exact .done ..
    | .error err =>
      by_cases failure : err.isMasterFailure = true
      · obtain ⟨peer, blamed⟩ := master_failure failure
        have rest := ih (h.peers.drop peer)
          (Attempt.begin env o.mode o.target (h.setPeers (h.peers.drop peer)))
        have left : (h.setPeers (h.peers.drop peer)).peers = h.peers.drop peer := rfl
        simpa [resolve, trials, dropBlamed_eq blamed, blamed.failure, blamed.named, left] using
          Logged.next pool blamed rest
      · rw [Bool.not_eq_true] at failure
        simpa [resolve, trials, failure] using Logged.failed (n + 1) pool h failure

end Session

namespace Voyage

variable {σ : Type} [NodeStore σ]

/-- The step that an occurrence makes the session's attempt take. -/
def deed? (v : Voyage σ) : Occurrence σ → Option (Surroundings × Session × Attempt.Step σ)
  | .signal env signal =>
    match v.outcome with
    | .inl s => some (env, s, s.attempt.step env v.hub s.stage signal)
    | .inr _ => none
  | .landed env result =>
    match v.outcome with
    | .inl s => s.handedOver?.map fun i => (env, s, s.attempt.landed env v.hub i result)
    | .inr _ => none
  | .meanwhile _ => none

variable {v : Voyage σ} {occurrence : Occurrence σ}

/-- A step, as it was taken. -/
structure Deed (v : Voyage σ) (occurrence : Occurrence σ) (env : Surroundings) (s : Session)
    (out : Attempt.Step σ) : Prop where
  under : v.outcome = .inl s
  wanes : Attempt.Wanes v.hub out
  stepped : s.stage.AskedOf s.attempt.master → v.hub.peers.ids.Nodup →
    Stepped s.order env (some occurrence) (some s.attempt.master) out
  applied : v.apply occurrence =
    { hub := (Session.resolve env s.order s.attemptsLeft out).1
      outcome := (Session.resolve env s.order s.attemptsLeft out).2
      masters := v.masters ++ Session.successors env s.order s.attemptsLeft out
      env
      last := some occurrence }

theorem deed_of_some {env : Surroundings} {s : Session} {out : Attempt.Step σ}
    (deed : v.deed? occurrence = some (env, s, out)) : v.Deed occurrence env s out := by
  cases occurrence with
  | meanwhile hub => cases deed
  | signal env' signal =>
    simp only [deed?] at deed
    split at deed
    · rename_i s' under
      cases deed
      refine ⟨under, Attempt.step_wanes .., fun asked unique => signal_stepped asked unique _, ?_⟩
      simp only [apply, under]
      rfl
    · cases deed
  | landed env' result =>
    simp only [deed?] at deed
    split at deed
    · rename_i s' under
      obtain ⟨i, handed, heq⟩ := Option.map_eq_some_iff.mp deed
      cases heq
      refine ⟨under, Attempt.landed_wanes .., fun _ unique => landed_stepped unique i _, ?_⟩
      simp only [apply, under, handed]
      obtain ⟨id, mode, target, n, attempt, stage⟩ := s
      cases stage <;> cases handed
      rfl
    · cases deed

/-- Where no step is taken the session stays as it is. -/
theorem apply_of_none (idle : v.deed? occurrence = none) : v.apply occurrence = v ∨
    ∃ h s, occurrence = .meanwhile h ∧ v.outcome = .inl s ∧ v.apply occurrence = { v with hub := h } := by
  cases under : v.outcome with
  | inr result =>
    left
    cases occurrence <;> simp only [apply, under]
  | inl s =>
    cases occurrence with
    | meanwhile h => exact .inr ⟨h, s, rfl, rfl, by simp only [apply, under]⟩
    | signal env signal => simp [deed?, under] at idle
    | landed env result =>
      simp only [deed?, under, Option.map_eq_none_iff] at idle
      left
      simp only [apply, under, idle]

end Voyage
/-- A session with its attempts. -/
structure Journal (σ : Type) where
  voyage : Voyage σ
  /-- The attempts that came to an end, in order. -/
  past : List Trial
  /-- The peers that the attempt under way chose its master from. -/
  pool : Option PeerSet

namespace Journal

variable {σ : Type}

def begin (env : Surroundings) (o : Session.Order) (h : Hub σ) : Journal σ :=
  let (past, pool) := Session.trials env o (h.peers.config.maxMasterAttempts.toNat - 1) h.peers
    (Attempt.begin env o.mode o.target h)
  { voyage := .begin env o h, past, pool }

/-- The peers that each attempt chose its master from, in order. -/
def pools (j : Journal σ) : List PeerSet := j.past.map (·.pool) ++ j.pool.toList

/-- The masters of the attempts, in order. -/
def masters (j : Journal σ) : List SyncPeer := j.pools.filterMap PeerSet.choice

variable [NodeStore σ]

def apply (j : Journal σ) (occurrence : Occurrence σ) : Journal σ :=
  let voyage := j.voyage.apply occurrence
  match j.voyage.deed? occurrence, j.pool with
  | some (env, s, out), some pool =>
    let (ended, pool) := Session.trials env s.order s.attemptsLeft pool out
    { voyage, past := j.past ++ ended, pool }
  | _, _ => { j with voyage }

def run (j : Journal σ) (occurrences : List (Occurrence σ)) : Journal σ :=
  occurrences.foldl apply j

/-- The hub after each of the occurrences, and before any. -/
def hubs (j : Journal σ) (occurrences : List (Occurrence σ)) : List (Hub σ) :=
  occurrences.inits.map fun told => (j.run told).voyage.hub

section Invariant

omit [NodeStore σ]

variable {attempts : Nat} {o : Session.Order} {env : Surroundings} {past : List Trial}
  {start pool : PeerSet}

/-- No master of these attempts is there, or all were dropped. -/
def Gone (past : List Trial) (peers : PeerSet) : Prop :=
  ∀ t ∈ past, ∀ p, t.master? = some p → p.id ∉ peers.activeIds

/-- Attempts that have ended, one after the other, each with a master of its own. -/
structure Ordered (start : PeerSet) (past : List Trial) (pool : Option PeerSet) : Prop where
  first : (past.map (·.pool) ++ pool.toList).head? = some start
  unique : ∀ s ∈ past.map (·.pool) ++ pool.toList, s.ids.Nodup
  judged : ∀ t ∈ past, t.Judged
  leads : past.IsChain Trial.Leads
  follows : ∀ s, pool = some s → ∀ t, past.getLast? = some t → t.Failed ∧ s = t.left
  distinct : (((past.map (·.pool) ++ pool.toList).filterMap PeerSet.choice).map SyncPeer.id).Nodup

theorem Ordered.ended (ordered : Ordered start past (some pool)) {t : Trial}
    (same : t.pool = pool) (judged : t.Judged) : Ordered start (past ++ [t]) none := by
  obtain ⟨first, unique, before, leads, follows, distinct⟩ := ordered
  subst same
  refine ⟨by simpa using first, by simpa using unique, ?_, ?_, by simp, by simpa using distinct⟩
  · simpa [or_imp, forall_and] using ⟨before, judged⟩
  · refine List.isChain_append.mpr ⟨leads, .singleton _, fun u hu v hv => ?_⟩
    cases hv
    exact follows _ rfl u hu

theorem Gone.wanes {peers peers' : PeerSet} (gone : Gone past peers) (wanes : peers.Wanes peers') :
    Gone past peers' :=
  fun t ht p chosen active => gone t ht p chosen (wanes.active _ active)

theorem Gone.dropped {peers : PeerSet} (gone : Gone past peers) (unique : peers.ids.Nodup)
    {t : Trial} {p : SyncPeer} (chosen : t.master? = some p) :
    Gone (past ++ [t]) (peers.drop p.id) := by
  intro u hu q hq
  rcases List.mem_append.mp hu with hu | hu
  · exact gone.wanes (.drop ..) u hu q hq
  · obtain rfl := List.mem_singleton.mp hu
    obtain rfl := Option.some.inj (chosen.symm.trans hq)
    intro active
    obtain ⟨q, hq, live, same⟩ := PeerSet.mem_activeIds.mp active
    exact PeerSet.ne_of_drop unique hq live same

theorem Ordered.next (ordered : Ordered start past none) (unique : pool.ids.Nodup)
    (follows : ∀ t, past.getLast? = some t → t.Failed ∧ pool = t.left) (gone : Gone past pool) :
    Ordered start past (some pool) := by
  obtain ⟨first, before, judged, leads, -, distinct⟩ := ordered
  simp only [Option.toList_none, List.append_nil] at first before distinct
  refine ⟨?_, ?_, judged, leads, ?_, ?_⟩
  · rw [List.head?_append, first]
    rfl
  · simpa [or_imp, forall_and] using ⟨by simpa using before, unique⟩
  · rintro _ ⟨⟩
    exact follows
  · rw [Option.toList_some, List.filterMap_append, List.map_append]
    refine List.nodup_append.mpr ⟨distinct, ?_, ?_⟩
    · cases chosen : pool.choice <;> simp [chosen]
    · intro id hid id' hid'
      simp only [List.mem_map, List.mem_filterMap, List.mem_singleton] at hid hid'
      obtain ⟨p, ⟨_, ⟨t, ht, rfl⟩, hp⟩, rfl⟩ := hid
      obtain ⟨q, ⟨_, rfl, hq⟩, rfl⟩ := hid'
      obtain ⟨hmem, live, -⟩ := Attempt.selectMaster_ok (PeerSet.choice_eq_some.mp hq)
      intro same
      exact gone t ht p hp (PeerSet.mem_activeIds.mpr ⟨q, hmem, live, same.symm⟩)

/-- What holds while an attempt is under way. -/
structure Under (attempts : Nat) (o : Session.Order) (j : Journal σ) (s : Session) : Prop where
  order : s.order = o
  asked : s.stage.AskedOf s.attempt.master
  count : j.past.length + 1 + s.attemptsLeft = attempts
  chosen : ∃ pool, j.pool = some pool ∧ pool.choice = some s.attempt.master
  gone : Gone j.past j.voyage.hub.peers

structure Sound (start : PeerSet) (attempts : Nat) (o : Session.Order) (j : Journal σ) : Prop where
  unique : j.voyage.hub.peers.ids.Nodup
  ordered : Ordered start j.past j.pool
  few : j.pools.length ≤ attempts
  going : ∀ s, j.voyage.outcome = .inl s → Under attempts o j s
  closed : ∀ result, j.voyage.outcome = .inr result → j.pool = none ∧
    ∃ t, j.past.getLast? = some t ∧ t.result = result ∧ j.voyage.hub.peers = t.left

theorem Sound.ended {v : Voyage σ} {t : Trial} (unique : v.hub.peers.ids.Nodup)
    (ordered : Ordered start past (some t.pool)) (judged : t.Judged) (few : past.length + 1 ≤ attempts)
    (closed : v.outcome = .inr t.result) (left : v.hub.peers = t.left) :
    Sound start attempts o ⟨v, past ++ [t], none⟩ := by
  refine ⟨unique, ordered.ended rfl judged, by simpa [pools] using few, ?_, ?_⟩
  · simp [closed]
  · intro result ended
    obtain rfl := Sum.inr.inj (closed.symm.trans ended)
    exact ⟨rfl, t, List.getLast?_concat .., rfl, left⟩

theorem logged_sound {n : Nat} {out : Attempt.Step σ} {log : List Trial × Option PeerSet}
    {settled : Hub σ × (Session ⊕ Except SyncError Unit)} {last : Option (Occurrence σ)}
    (logged : Session.Logged env o n pool out log settled) (masters : List SyncPeer)
    (stepped : Voyage.Stepped o env last pool.choice out) (ordered : Ordered start past (some pool))
    (count : past.length + 1 + n = attempts) (gone : Gone past out.1.peers) :
    Sound start attempts o ⟨⟨settled.1, settled.2, masters, env, last⟩, past ++ log.1, log.2⟩ := by
  induction logged generalizing past with
  | going n pool h attempt stage =>
    obtain ⟨chosen, asked⟩ := stepped.goes attempt stage rfl
    rw [List.append_nil]
    refine ⟨stepped.unique, ordered, by simp [pools]; omega, ?_, by simp⟩
    rintro s ⟨⟩
    exact ⟨rfl, asked, count, ⟨pool, rfl, chosen⟩, gone⟩
  | done n pool h =>
    exact .ended stepped.unique ordered (Trial.judged_other (by simp)) (by omega) rfl rfl
  | failed n pool h other =>
    refine .ended stepped.unique ordered (Trial.judged_other ?_) (by omega) rfl rfl
    rintro _ ⟨⟩
    exact other
  | last pool h blamed =>
    obtain ⟨p, chosen, rfl, named⟩ := (stepped.fails _ rfl).blames blamed
    refine .ended ?_ ordered (Trial.judged_failed chosen named) (by omega) rfl rfl
    rw [(Hub.Quiet.drop h p.id).ids]
    exact stepped.unique
  | next pool blamed rest ih =>
    rename_i n h err _ log out
    obtain ⟨p, chosen, rfl, named⟩ := (stepped.fails _ rfl).blames blamed
    have judged : Trial.Judged ⟨pool, .error err, h.peers, h.peers.drop p.id⟩ :=
      Trial.judged_failed chosen named
    have unique : (h.peers.drop p.id).ids.Nodup := by
      rw [PeerSet.ids_drop]
      exact stepped.unique
    have left := gone.dropped stepped.unique (t := ⟨pool, .error err, h.peers, h.peers.drop p.id⟩)
      chosen
    rw [List.append_cons]
    refine ih (Voyage.begin_stepped unique fun _ => id)
      ((ordered.ended rfl judged).next unique ?_ left) (by simp; omega)
      (left.wanes (Attempt.begin_wanes env o.mode o.target (h.setPeers (h.peers.drop p.id))))
    intro t hlast
    rw [List.getLast?_concat] at hlast
    cases hlast
    exact ⟨⟨err, rfl, named.failure⟩, rfl⟩

theorem begin_sound {h : Hub σ} (valid : h.peers.config.validate = .ok ())
    (unique : h.peers.ids.Nodup) :
    Sound h.peers h.peers.config.maxMasterAttempts.toNat o (begin env o h) := by
  have attempts : ("max_master_attempts", h.peers.config.maxMasterAttempts.toNat) ∈
      h.peers.config.sizes := by simp [Config.sizes]
  have pos := Config.pos_of_validate valid attempts
  have opening : Ordered h.peers [] (some h.peers) := by
    refine ⟨rfl, by simpa using unique, by simp, .nil, by simp, ?_⟩
    cases chosen : h.peers.choice <;> simp [chosen]
  exact logged_sound (Session.resolve_logged _ h.peers _) _
    (Voyage.begin_stepped unique fun _ => id) opening (by simp; omega) (by simp [Gone])

end Invariant

section Steps

variable {start : PeerSet} {attempts : Nat} {o : Session.Order} {j : Journal σ}

/-- Whoever comes meanwhile is not a master that failed before. -/
theorem apply_sound (sound : Sound start attempts o j) (occurrence : Occurrence σ)
    (arrival : ∀ h, occurrence = .meanwhile h → h.peers.ids.Nodup)
    (final : ∀ h s, occurrence = .meanwhile h → j.voyage.outcome = .inl s →
      Gone j.past h.peers) : Sound start attempts o (j.apply occurrence) := by
  cases deed : j.voyage.deed? occurrence with
  | none =>
    have same : j.apply occurrence = { j with voyage := j.voyage.apply occurrence } := by
      simp only [apply, deed]
    rw [same]
    rcases Voyage.apply_of_none deed with idle | ⟨h, s, rfl, under, came⟩
    · rw [idle]
      exact sound
    · obtain ⟨-, ordered, few, going, -⟩ := sound
      rw [came]
      refine ⟨arrival h rfl, ordered, few, fun s' under' => ?_, by simp [under]⟩
      obtain ⟨order, asked, count, chosen, -⟩ := going s' under'
      exact ⟨order, asked, count, chosen, final h s rfl under⟩
  | some taken =>
    obtain ⟨env, s, out⟩ := taken
    obtain ⟨under, wanes, stepped, applied⟩ := Voyage.deed_of_some deed
    obtain ⟨rfl, asked, count, ⟨pool, now, chosen⟩, gone⟩ := sound.going s under
    have step := stepped asked sound.unique
    rw [← chosen] at step
    simp only [apply, deed, now, applied]
    exact logged_sound (Session.resolve_logged _ _ _) _ step (now ▸ sound.ordered) count
      (gone.wanes wanes)

theorem run_sound (sound : Sound start attempts o j) (occurrences : List (Occurrence σ))
    (arrivals : ∀ h, .meanwhile h ∈ occurrences → h.peers.ids.Nodup)
    (final : ∀ earlier h later s, occurrences = earlier ++ .meanwhile h :: later →
      (j.run earlier).voyage.outcome = .inl s → Gone (j.run earlier).past h.peers) :
    Sound start attempts o (j.run occurrences) := by
  induction occurrences generalizing j with
  | nil => exact sound
  | cons occurrence occurrences ih =>
    refine ih (apply_sound sound occurrence ?_ ?_) (fun h hmem => ?_) ?_
    · rintro h rfl
      exact arrivals h (List.mem_cons_self ..)
    · rintro h s rfl
      exact final [] h occurrences s rfl
    · exact arrivals h (List.mem_cons_of_mem _ hmem)
    · rintro earlier h later s rfl
      exact final (occurrence :: earlier) h later s rfl

end Steps

/-- As long as no master that failed is there again, whether it was dropped or had left: every
attempt has a master of its own, the highest ranked live peer on our fork at the time; a failure of
the master names it, and it alone is dropped for it; there are no more attempts than allowed; and
the last one decides. -/
theorem attempts_have_masters_of_their_own (env : Surroundings) (o : Session.Order) (hub : Hub σ)
    (valid : hub.peers.config.validate = .ok ()) (unique : hub.peers.ids.Nodup)
    (occurrences : List (Occurrence σ))
    (arrivals : ∀ h, .meanwhile h ∈ occurrences → h.peers.ids.Nodup)
    (final : ∀ earlier h later s, occurrences = earlier ++ .meanwhile h :: later →
      ((begin env o hub).run earlier).voyage.outcome = .inl s →
        ∀ t ∈ ((begin env o hub).run earlier).past, ∀ p, t.master? = some p →
          p.id ∉ h.peers.activeIds) :
    let j := (begin env o hub).run occurrences
    j.pools.length ≤ hub.peers.config.maxMasterAttempts.toNat ∧
    j.pools.head? = some hub.peers ∧ (∀ pool ∈ j.pools, pool.Master pool.choice) ∧
    (j.masters.map SyncPeer.id).Nodup ∧
    (∀ t ∈ j.past, t.Judged) ∧ j.past.IsChain Trial.Leads ∧
    (∀ s, j.voyage.outcome = .inl s → ∃ pool, j.pool = some pool ∧
      pool.choice = some s.attempt.master ∧
        ∀ t, j.past.getLast? = some t → t.Failed ∧ pool = t.left) ∧
    ∀ result, j.voyage.outcome = .inr result → j.pool = none ∧
      ∃ t, j.past.getLast? = some t ∧ t.result = result ∧ j.voyage.hub.peers = t.left := by
  intro j
  have sound : Sound hub.peers hub.peers.config.maxMasterAttempts.toNat o j :=
    run_sound (begin_sound valid unique) occurrences arrivals final
  obtain ⟨first, distinctIds, judged, leads, follows, distinct⟩ := sound.ordered
  refine ⟨sound.few, first, fun pool hpool => ?_, distinct, judged, leads, fun s under => ?_,
    sound.closed⟩
  · exact PeerSet.master_choice (distinctIds pool hpool)
  · obtain ⟨-, -, -, ⟨pool, now, chosen⟩, -⟩ := sound.going s under
    exact ⟨pool, now, chosen, follows pool now⟩

/-- A session of an empty chain that has two peers. -/
def departure : Journal Simulation.NodeDatabase :=
  begin Voyage.departure.env ⟨1, .full, none⟩
    { peers := { config := {}, peers := [Voyage.ahead 1, Voyage.ahead 2] }, metrics := .zero
      board := ⟨{}, {}⟩ }

/-- A peer comes, or comes back. -/
def joined (h : Hub Simulation.NodeDatabase) (id : PeerId) : Hub Simulation.NodeDatabase :=
  match h.peers.register (Voyage.ahead id).info with
  | .ok peers => h.setPeers peers
  | .error _ => h

/-- The connection to whoever is asked first, or next, breaks. -/
def broken (ticket : Nat) : Occurrence Simulation.NodeDatabase :=
  .signal Voyage.departure.env (.ended ticket (.failed .disconnected))

/-- The first master was dropped, and somebody new has come. -/
def newcomer : Hub Simulation.NodeDatabase := joined (departure.run [broken 0]).voyage.hub 3

/-- Both masters fail, one after the other. -/
theorem attempts_have_masters_of_their_own_newcomer :
    let j := departure.run [broken 0, .meanwhile newcomer, broken 1]
    j.masters.map SyncPeer.id = [1, 2, 3] ∧ (j.masters.map SyncPeer.id).Nodup ∧
      j.past.length = 2 ∧ (∀ t ∈ j.past, t.Judged) ∧ j.past.IsChain Trial.Leads := by
  intro j
  obtain ⟨-, -, -, distinct, judged, leads, -⟩ :=
    attempts_have_masters_of_their_own Voyage.departure.env ⟨1, .full, none⟩
      { peers := { config := {}, peers := [Voyage.ahead 1, Voyage.ahead 2] }, metrics := .zero
        board := ⟨{}, {}⟩ }
      (by decide) (by decide) [broken 0, .meanwhile newcomer, broken 1]
      (by
        intro h hmem
        have same : h = newcomer := by simpa [broken] using hmem
        rw [same]
        decide +kernel)
      (by
        intro earlier h later s split _
        have same : newcomer = h ∧ [broken 0] = earlier := by
          match earlier with
          | [] => simp [broken] at split
          | [first] => simp_all
          | [first, second] => simp [broken] at split
          | first :: second :: third :: more => simp at split
        obtain ⟨rfl, rfl⟩ := same
        have gone : ∀ t ∈ (departure.run [broken 0]).past, ∀ p ∈ t.master?,
            p.id ∉ newcomer.peers.activeIds := by
          decide +kernel
        exact gone)
  exact ⟨by decide +kernel, distinct, by decide +kernel, judged, leads⟩

/-- The first master leaves while it is asked, and comes back while the second one is. -/
def comeback : List (Occurrence Simulation.NodeDatabase) :=
  let left := departure.voyage.hub.setPeers (departure.voyage.hub.peers.unregister 1)
  let alone := departure.run [.meanwhile left, broken 0]
  [.meanwhile left, broken 0, .meanwhile (joined alone.voyage.hub 1), broken 1]

/-- A master that leaves is not dropped. If it comes back it is chosen once more, although nobody
who was dropped ever registers again. -/
theorem master_that_left_is_chosen_again :
    (departure.run comeback).masters.map SyncPeer.id = [1, 2, 1] ∧
      (departure.hubs comeback).Pairwise fun h h' =>
        ∀ p ∈ h.peers.peers, p.live = false → p.id ∉ h'.peers.activeIds := by
  decide +kernel

end Journal
end ChainSync
