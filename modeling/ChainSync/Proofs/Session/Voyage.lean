import ChainSync.Proofs.Session.Masters
import ChainSync.Simulation.Trie
set_option autoImplicit false

/-!
A session from its first master to its end: which failures of a master it survives, and what ends
it.
-/

namespace ChainSync

open Fetch

/-- A session with the masters of its attempts, in order, and with what it was told last. -/
structure Voyage (σ : Type) where
  hub : Hub σ
  outcome : Session ⊕ Except SyncError Unit
  masters : List SyncPeer
  env : Surroundings
  last : Option (Occurrence σ)

namespace Voyage

variable {σ : Type}

def begin (env : Surroundings) (o : Session.Order) (h : Hub σ) : Voyage σ :=
  let (hub, outcome) := Session.begin env o h
  { hub, outcome, env, last := none
    masters := (Attempt.master? h).toList ++
      Session.successors env o (h.peers.config.maxMasterAttempts.toNat - 1)
        (Attempt.begin env o.mode o.target h) }

variable [NodeStore σ]

/-- A session that has ended does not go on. -/
def apply (v : Voyage σ) : Occurrence σ → Voyage σ
  | .signal env signal =>
    match v.outcome with
    | .inl s =>
      let (hub, outcome) := s.step env v.hub signal
      { hub, outcome, env, last := some (.signal env signal)
        masters := v.masters ++ Session.successors env s.order s.attemptsLeft
          (s.attempt.step env v.hub s.stage signal) }
    | .inr _ => v
  | .landed env result =>
    match v.outcome with
    | .inl s =>
      match s.handedOver? with
      | some i =>
        let (hub, outcome) := s.landed env v.hub result
        { hub, outcome, env, last := some (.landed env result)
          masters := v.masters ++ Session.successors env s.order s.attemptsLeft
            (s.attempt.landed env v.hub i result) }
      | none => v
    | .inr _ => v
  | .meanwhile hub =>
    match v.outcome with
    | .inl _ => { v with hub }
    | .inr _ => v

def run (v : Voyage σ) (occurrences : List (Occurrence σ)) : Voyage σ := occurrences.foldl apply v

omit [NodeStore σ] in
/-- Why an attempt with this master fails, with what it was told last and what the hub has come
to. -/
inductive Cause (o : Session.Order) (env : Surroundings) (last : Option (Occurrence σ)) (h : Hub σ)
    (master : Option SyncPeer) : SyncError → Prop where
  | master {p : SyncPeer} {err : SyncError} (tried : master = some p) (blamed : err.Blames p.id) :
      Cause o env last h master err
  /-- Nobody that could be chosen is left. -/
  | alone (nobody : ∀ p ∈ h.peers.peers, p.live = true → h.peers.isForkCompatible p = false) :
      Cause o env last h master .noUsablePeers
  /-- For too long nobody could be asked for anything. -/
  | stalled {env' : Surroundings} (waited : last = some (.signal env' .deadline)) :
      Cause o env last h master .noUsablePeers
  /-- The master is to be asked for headers, and is gone, dropped or has no slot. -/
  | unasked {p : SyncPeer} {e : PeerSetError} (tried : master = some p)
      (refused : h.peers.beginRequest p.id .headers = .error e) :
      Cause o env last h master (.peerSet e)
  | beyond {p : SyncPeer} {n : Nat} (tried : master = some p) (aim : o.target = some n)
      (above : p.info.head.toNat < n) :
      Cause o env last h master (.invalidTarget n p.info.head.toNat)
  /-- The local chain does not know the head that the master advertised. -/
  | unknown {p : SyncPeer} (tried : master = some p)
      (missing : env.view.totalDifficulty p.info.headHash = .ok none) :
      Cause o env last h master (.unknownBlock p.info.headHash)
  | cancelled (seen : env.cancelled = true ∨ env.revoked = true) :
      Cause o env last h master .cancelled
  | chain {e : ChainError} (failed : env.view.Fails e) : Cause o env last h master (.chain e)
  | stateStore (e : StoreError) : Cause o env last h master (.stateStore e)
  /-- The local chain could not take a batch. -/
  | store {env' : Surroundings} {answer : InsertError} {reason : String}
      (told : last = some (.landed env' (.error answer))) (fault : answer.error = .store reason) :
      Cause o env last h master (.chain (.store reason))
  /-- The local chain refused a batch. -/
  | refused {env' : Surroundings} {answer : InsertError} (category : Category) (range : Range)
      (peer : Option PeerId) (told : last = some (.landed env' (.error answer))) :
      Cause o env last h master (.validationFailure category range peer answer.error.message)

section Causes

omit [NodeStore σ]

variable {o : Session.Order} {env : Surroundings} {last : Option (Occurrence σ)} {h : Hub σ}
  {err : SyncError} {master : Option SyncPeer}

theorem cause_of_failure {a : Attempt} {late : Prop} (failure : a.Failure env late h err)
    (waited : late → ∃ env', last = some (.signal env' .deadline)) :
    Cause o env last h (some a.master) err := by
  cases failure with
  | master blamed => exact .master rfl blamed
  | unasked refused => exact .unasked rfl refused
  | cancelled seen => exact .cancelled seen
  | noUsablePeers late =>
    obtain ⟨env', told⟩ := waited late
    exact .stalled told
  | chain failed => exact .chain failed
  | stateStore e => exact .stateStore e
  | unknown head missing => exact .unknown rfl missing

theorem cause_of_refused {env' : Surroundings} {i : Insertion} {answer : InsertError} {h' : Hub σ}
    (told : last = some (.landed env' (.error answer)))
    (failed : Attempt.refused h i answer = (h', .error err)) : Cause o env last h' master err := by
  unfold Attempt.refused at failed
  split at failed
  · rename_i fault
    cases failed
    exact .store told fault
  · cases failed
    exact .refused _ _ _ told

/-- Nobody but the master itself is blamed as a master. -/
theorem Cause.blames (cause : Cause o env last h master err) {peer : PeerId}
    (blamed : err.Blames peer) : ∃ p, master = some p ∧ p.id = peer ∧ err.Blames p.id := by
  cases cause with
  | master tried named =>
    exact ⟨_, tried, Option.some.inj (named.named.symm.trans blamed.named), named⟩
  | _ => cases blamed.failure

/-- What a session is told by a step of an attempt with this master. -/
structure Stepped (o : Session.Order) (env : Surroundings) (last : Option (Occurrence σ))
    (master : Option SyncPeer) (out : Attempt.Step σ) : Prop where
  unique : out.1.peers.ids.Nodup
  goes : ∀ a stage, out.2 = .ok (some (a, stage)) →
    master = some a.master ∧ stage.AskedOf a.master
  fails : ∀ err, out.2 = .error err → Cause o env last out.1 master err

theorem begin_stepped (unique : h.peers.ids.Nodup)
    (chosen : ∀ p, Attempt.master? h = some p → master = some p) :
    Stepped o env last master (Attempt.begin env o.mode o.target h) := by
  refine ⟨by rwa [Attempt.begin_quiet.ids], fun a stage begun => ?_, fun err failed => ?_⟩
  · cases found : Attempt.master? h with
    | none =>
      rw [Attempt.begin_unopened found] at begun
      cases begun
    | some p =>
      have opened : Attempt.Opened env o.target p (Attempt.begin env o.mode o.target h).2 :=
        (Attempt.begin_opened found).2
      rw [begun] at opened
      cases opened with
      | asking same asked aim below => exact ⟨by rw [chosen p found, same], same ▸ asked⟩
  · cases found : Attempt.master? h with
    | none =>
      rw [Attempt.begin_unopened found] at failed ⊢
      cases failed
      have enough : h.peers.livePeers.length < h.peers.peers.length + 1 :=
        Nat.lt_succ_of_le (List.length_filter_le ..)
      exact .alone fun p hmem live => Attempt.selectMaster_nobody unique enough found hmem live
    | some p =>
      have opened : Attempt.Opened env o.target p (Attempt.begin env o.mode o.target h).2 :=
        (Attempt.begin_opened found).2
      rw [failed] at opened
      cases opened with
      | beyond aim above => exact .beyond (chosen p found) aim above
      | chain unread => exact .chain unread
      | cancelled seen => exact .cancelled (.inl seen)
      | failed blamed => exact .master (chosen p found) blamed

end Causes

section Runs

omit [NodeStore σ]

variable {o : Session.Order} {env : Surroundings} {last : Option (Occurrence σ)} {attempts : Nat}
  {masters : List SyncPeer}

/-- Every attempt has a master of its own, and a session fails for its master only when no attempt
is left. -/
structure Sound (attempts : Nat) (o : Session.Order) (v : Voyage σ) : Prop where
  unique : v.hub.peers.ids.Nodup
  changes : v.masters.IsChain fun p q => q.id ≠ p.id
  few : v.masters.length ≤ attempts
  going : ∀ s, v.outcome = .inl s → s.order = o ∧ v.masters.getLast? = some s.attempt.master ∧
    s.stage.AskedOf s.attempt.master ∧ v.masters.length + s.attemptsLeft = attempts
  ended : ∀ err, v.outcome = .inr (.error err) →
    Cause o v.env v.last v.hub v.masters.getLast? err ∧
      (err.isMasterFailure = true → v.masters.length = attempts)

theorem resolved_sound {n : Nat} {out : Attempt.Step σ} {more : List SyncPeer}
    {settled : Hub σ × (Session ⊕ Except SyncError Unit)}
    (resolved : Session.Resolved env o n out more settled)
    (stepped : Stepped o env last masters.getLast? out)
    (changes : masters.IsChain fun p q => q.id ≠ p.id) (few : masters.length + n ≤ attempts)
    (count : out.2 = .error .noUsablePeers ∨ masters.length + n = attempts) :
    Sound attempts o ⟨settled.1, settled.2, masters ++ more, env, last⟩ := by
  induction resolved generalizing masters with
  | going n h attempt stage =>
    rw [List.append_nil]
    obtain ⟨same, asked⟩ := stepped.goes attempt stage rfl
    refine ⟨stepped.unique, changes, Nat.le_of_add_right_le few, ?_, by simp⟩
    rintro s ⟨⟩
    exact ⟨rfl, same, asked, count.resolve_left (by simp)⟩
  | done n h =>
    rw [List.append_nil]
    exact ⟨stepped.unique, changes, Nat.le_of_add_right_le few, by simp, by simp⟩
  | failed n h other =>
    rw [List.append_nil]
    refine ⟨stepped.unique, changes, Nat.le_of_add_right_le few, by simp, ?_⟩
    rintro _ ⟨⟩
    exact ⟨stepped.fails _ rfl, fun failure => by simp [failure] at other⟩
  | last h blamed =>
    rename_i err master
    rw [List.append_nil]
    refine ⟨by rw [(Hub.Quiet.drop h master).ids]; exact stepped.unique, changes, few, by simp, ?_⟩
    rintro _ ⟨⟩
    obtain ⟨p, tried, -, named⟩ := (stepped.fails err rfl).blames blamed
    exact ⟨.master tried named, fun _ => count.resolve_left (by simpa using blamed.usable)⟩
  | next blamed rest ih =>
    rename_i n h err master more out
    have used := count.resolve_left (by simpa using blamed.usable)
    have unique : (h.setPeers (h.peers.drop master)).peers.ids.Nodup := by
      rw [(Hub.Quiet.drop h master).ids]
      exact stepped.unique
    rw [← List.append_assoc]
    cases found : Attempt.master? (h.setPeers (h.peers.drop master)) with
    | none =>
      rw [Option.toList_none, List.append_nil]
      refine ih (begin_stepped unique ?_) changes (by omega) (.inl ?_)
      · simp [found]
      · rw [Attempt.begin_unopened found]
    | some p =>
      obtain ⟨q, hq, rfl, -⟩ := (stepped.fails err rfl).blames blamed
      -- who was dropped is not chosen again
      obtain ⟨hmem, live, -⟩ := Attempt.selectMaster_ok (Attempt.master?_eq_some.mp found)
      have fresh : p.id ≠ q.id := PeerSet.ne_of_drop stepped.unique hmem live
      refine ih (begin_stepped unique ?_) ?_ ?_ (.inr ?_)
      · intro p' hp'
        rw [found] at hp'
        simpa using hp'
      · refine List.isChain_append.mpr ⟨changes, .singleton _, ?_⟩
        intro x hx y hy
        rw [hq] at hx
        cases hx
        cases hy
        exact fresh
      · simp
        omega
      · simp
        omega

theorem begin_sound {h : Hub σ} (valid : h.peers.config.validate = .ok ())
    (unique : h.peers.ids.Nodup) :
    Sound h.peers.config.maxMasterAttempts.toNat o (begin env o h) := by
  have attempts : ("max_master_attempts", h.peers.config.maxMasterAttempts.toNat) ∈
      h.peers.config.sizes := by simp [Config.sizes]
  have pos := Config.pos_of_validate valid attempts
  refine resolved_sound (Session.resolve_resolved _ _) (begin_stepped unique ?_) ?_ ?_ ?_
  · intro p found
    simp [found]
  all_goals cases found : Attempt.master? h with
    | none => ?_
    | some p => ?_
  · exact .nil
  · exact .singleton p
  · simp
  · simp
    omega
  · exact .inl (by rw [Attempt.begin_unopened found])
  · refine .inr ?_
    simp
    omega

end Runs

section Steps

variable {o : Session.Order} {env : Surroundings} {last : Option (Occurrence σ)} {attempts : Nat}
  {v : Voyage σ} {s : Session}

omit [NodeStore σ] in
theorem stepped_of_outcome {a : Attempt} {h : Hub σ} {late : Prop} {out : Attempt.Step σ}
    (outcome : a.Outcome env late h out) (unique : h.peers.ids.Nodup)
    (waited : late → ∃ env', last = some (.signal env' .deadline)) :
    Stepped o env last (some a.master) out := by
  refine ⟨by rwa [outcome.ids], fun a' stage going => ?_, fun err failed => ?_⟩
  · obtain ⟨same, -, asked⟩ := outcome.goes a' stage going
    exact ⟨by rw [same], same ▸ asked⟩
  · exact cause_of_failure (outcome.fails err failed) waited

theorem signal_stepped {h : Hub σ} (asked : s.stage.AskedOf s.attempt.master)
    (unique : h.peers.ids.Nodup) (signal : Signal) :
    Stepped o env (some (.signal env signal)) (some s.attempt.master)
      (s.attempt.step env h s.stage signal) := by
  by_cases handed : ∃ i, s.stage = .inserting i
  · obtain ⟨i, stage⟩ := handed
    rw [stage]
    refine ⟨unique, ?_, by simp [Attempt.step]⟩
    rintro a stage ⟨⟩
    exact ⟨rfl, trivial⟩
  · refine stepped_of_outcome (Attempt.step_outcome asked (fun i stage => handed ⟨i, stage⟩) signal)
      unique ?_
    rintro rfl
    exact ⟨env, rfl⟩

theorem landed_stepped {h : Hub σ} (unique : h.peers.ids.Nodup) (i : Insertion)
    (result : Except InsertError Unit) :
    Stepped o env (some (.landed env result)) (some s.attempt.master)
      (s.attempt.landed env h i result) := by
  cases result with
  | ok =>
    have outcome : s.attempt.Outcome env False h (s.attempt.landed env h i (.ok ())) :=
      Attempt.landed_outcome i
    exact stepped_of_outcome outcome unique (by simp)
  | error answer =>
    obtain ⟨h', err, refused, quiet, -⟩ := Attempt.refused_eq h i answer
    have failed : s.attempt.landed env h i (.error answer) = (h', .error err) := refused
    rw [failed]
    refine ⟨by rwa [quiet.ids], by simp, ?_⟩
    rintro _ ⟨⟩
    exact cause_of_refused rfl refused

omit [NodeStore σ] in
/-- Whatever a session does after a step of its attempt. -/
theorem Sound.step (sound : Sound attempts o v) (under : v.outcome = .inl s) {out : Attempt.Step σ}
    (stepped : Stepped o env last (some s.attempt.master) out) :
    Sound attempts o
      ⟨(Session.resolve env s.order s.attemptsLeft out).1,
        (Session.resolve env s.order s.attemptsLeft out).2,
        v.masters ++ Session.successors env s.order s.attemptsLeft out, env, last⟩ := by
  obtain ⟨rfl, tried, -, count⟩ := sound.going s under
  exact resolved_sound (Session.resolve_resolved _ _) (tried ▸ stepped) sound.changes
    (Nat.le_of_eq count) (.inr count)

theorem apply_sound (sound : Sound attempts o v) (occurrence : Occurrence σ)
    (arrival : ∀ h, occurrence = .meanwhile h → h.peers.ids.Nodup) :
    Sound attempts o (v.apply occurrence) := by
  cases under : v.outcome with
  | inr result =>
    have same : v.apply occurrence = v := by cases occurrence <;> simp only [apply, under]
    rwa [same]
  | inl s =>
    obtain ⟨-, -, asked, -⟩ := sound.going s under
    cases occurrence with
    | signal env signal =>
      simp only [apply, under]
      exact sound.step under (signal_stepped asked sound.unique signal)
    | landed env result =>
      simp only [apply, under]
      cases handed : s.handedOver? with
      | none => exact sound
      | some i =>
        have landed : s.landed env v.hub result =
            Session.resolve env s.order s.attemptsLeft (s.attempt.landed env v.hub i result) := by
          obtain ⟨id, mode, target, n, attempt, stage⟩ := s
          cases stage <;> cases handed
          rfl
        simp only [landed]
        exact sound.step under (landed_stepped sound.unique i result)
    | meanwhile hub =>
      simp only [apply, under]
      obtain ⟨-, changes, few, going, -⟩ := sound
      exact ⟨arrival hub rfl, changes, few, fun s' under' => going s' (under ▸ under'), by simp⟩

theorem run_sound (sound : Sound attempts o v) (occurrences : List (Occurrence σ))
    (arrivals : ∀ h, .meanwhile h ∈ occurrences → h.peers.ids.Nodup) :
    Sound attempts o (v.run occurrences) := by
  induction occurrences generalizing v with
  | nil => exact sound
  | cons occurrence occurrences ih =>
    refine ih (apply_sound sound occurrence fun h heq => arrivals h ?_) fun h hmem => ?_
    · exact heq ▸ List.mem_cons_self ..
    · exact arrivals h (List.mem_cons_of_mem _ hmem)

end Steps

/-- Whatever happens to a session and to its peers, each of its attempts has a master that the one
before did not have, and a failure of a master ends the session only once every attempt was used.
Apart from what has nothing to do with the master, one thing more ends it at once: the master is to
be asked for headers and is gone, was dropped, or has no free slot. -/
theorem failed_master_is_replaced (env : Surroundings) (o : Session.Order) (hub : Hub σ)
    (valid : hub.peers.config.validate = .ok ()) (unique : hub.peers.ids.Nodup)
    (occurrences : List (Occurrence σ))
    (arrivals : ∀ h, .meanwhile h ∈ occurrences → h.peers.ids.Nodup) :
    let v := (begin env o hub).run occurrences
    let attempts := hub.peers.config.maxMasterAttempts.toNat
    v.masters.IsChain (fun p q => q.id ≠ p.id) ∧ v.masters.length ≤ attempts ∧
    (∀ s, v.outcome = .inl s → v.masters.getLast? = some s.attempt.master ∧
      v.masters.length + s.attemptsLeft = attempts) ∧
    ∀ err, v.outcome = .inr (.error err) →
      Cause o v.env v.last v.hub v.masters.getLast? err ∧
        (err.isMasterFailure = true → v.masters.length = attempts) := by
  intro v attempts
  have sound : Sound attempts o v := run_sound (begin_sound valid unique) occurrences arrivals
  refine ⟨sound.changes, sound.few, fun s under => ?_, sound.ended⟩
  obtain ⟨-, tried, -, count⟩ := sound.going s under
  exact ⟨tried, count⟩

/-- A peer that is one block ahead of genesis. -/
def ahead (id : PeerId) : SyncPeer where
  info :=
    { id, version := 68, headHash := 0, head := 1, totalDifficulty := .ofNat 17, forkId := none
      connection := id.toNat }
  state := .idle
  inFlight := .const 0
  throughput := .const 100.0
  rtt := none
  consecutiveTimeouts := 0

/-- A session of an empty chain that has two peers. -/
def departure : Voyage Simulation.NodeDatabase :=
  begin
    { engine := .default, hasStore := true, session := 1, cancelled := false
      view :=
        { currentHeader := .ok {}, headerByHash := fun _ => .ok (some {})
          totalDifficulty := fun _ => .ok none } }
    ⟨1, .full, none⟩
    { peers := { config := {}, peers := [ahead 1, ahead 2] }, metrics := .zero, board := ⟨{}, {}⟩ }

/-- The first master leaves while it is asked for the common block. -/
def left : Hub Simulation.NodeDatabase :=
  departure.hub.setPeers (departure.hub.peers.unregister 1)

/-- Its connection says so, and the other peer is asked. -/
theorem failed_master_is_replaced_left :
    let v := departure.run
      [.meanwhile left, .signal departure.env (.ended 0 (.failed .disconnected))]
    v.masters.map SyncPeer.id = [1, 2] ∧ ∃ s, v.outcome = .inl s ∧ s.attempt.master.id = 2 ∧
      s.attemptsLeft = 1 := by
  intro v
  have masters : v.masters = [ahead 1, ahead 2] := rfl
  obtain ⟨s, under⟩ : ∃ s, v.outcome = .inl s := ⟨_, rfl⟩
  obtain ⟨-, -, going, -⟩ := failed_master_is_replaced departure.env ⟨1, .full, none⟩
    { peers := { config := {}, peers := [ahead 1, ahead 2] }, metrics := .zero, board := ⟨{}, {}⟩ }
    (by decide) (by decide)
    [.meanwhile left, .signal departure.env (.ended 0 (.failed .disconnected))] (by
      intro h hmem
      have same : h = left := by simpa using hmem
      rw [same]
      decide)
  obtain ⟨tried, count⟩ := going s under
  have three : 2 + s.attemptsLeft = 3 := count
  have last : some (ahead 2) = some s.attempt.master := tried
  refine ⟨by rw [masters]; rfl, s, under, ?_, by omega⟩
  rw [← Option.some.inj last]
  rfl

/-- If its answer still comes through, the next question is to be put to a peer that is not there:
the session fails, with two attempts and a peer to spare. -/
theorem lost_master_fails_the_session :
    let before := departure.apply (.meanwhile left)
    let after := before.apply (.signal departure.env (.ended 0 (.answered (.headers [{}]))))
    (∃ s, before.outcome = .inl s ∧ s.attempt.master.id = 1 ∧ s.attemptsLeft = 2) ∧
      (∃ p ∈ after.hub.peers.peers, p.id = 2 ∧ p.live = true ∧
        after.hub.peers.isForkCompatible p = true) ∧
      after.outcome = .inr (.error (.peerSet (.notRegistered 1))) ∧ after.masters.length = 1 :=
  ⟨⟨_, rfl, rfl, rfl⟩, ⟨ahead 2, List.mem_cons_self .., rfl, rfl, rfl⟩, rfl, rfl⟩

end Voyage
end ChainSync
