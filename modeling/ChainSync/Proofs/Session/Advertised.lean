import ChainSync.Proofs.Session.Masters
set_option autoImplicit false

/-!
A master that advertised another head than it serves, or more difficulty than its chain has: where
an attempt finds out, and whom it blames.
-/

namespace ChainSync

open Fetch

/-- Nobody gives the attempt up, and the local chain answers. -/
structure Surroundings.Calm (env : Surroundings) : Prop where
  wanted : env.cancelled = false
  unrevoked : env.revoked = false
  answering : ∀ err, ¬ env.view.Fails err

/-- Nobody gives the attempt up, and the local chain answers and takes every batch. -/
def Occurrence.Calm {σ : Type} : Occurrence σ → Prop
  | .signal env _ => env.Calm
  | .landed env result => env.Calm ∧ result = .ok ()
  | .meanwhile _ => True

/-- What ends an attempt although nothing is wrong with the master's chain: there was nobody to ask,
or the state could not be stored. -/
inductive SyncError.Aside : SyncError → Prop where
  | noUsablePeers : Aside .noUsablePeers
  | peerSet (err : PeerSetError) : Aside (.peerSet err)
  | stateStore (err : StoreError) : Aside (.stateStore err)

namespace Course

variable {σ : Type} {c : Course σ}

/-- Whom an attempt asks, and what it ends with. -/
structure Judged (c : Course σ) : Prop where
  asks : ∀ a' stage, c.standing = .ok (some (a', stage)) →
    stage.AskedOf a'.master ∧ ∀ a, c.attempt = some a → a'.master = a.master
  fails : ∀ a err, c.attempt = some a → c.standing = .error err →
    err.Blames a.master.id ∨ err.Aside ∨ err = .unknownBlock a.master.info.headHash

theorem begin_judged (env : Surroundings) (mode : SyncMode) (target : Option Nat) (h : Hub σ) :
    Judged (begin env mode target h) := by
  unfold begin
  generalize hbegin : Attempt.begin env mode target h = out
  obtain ⟨h', standing⟩ := out
  match standing with
  | .ok (some (a, stage)) =>
    have asks := (Attempt.begin_asks (congrArg Prod.snd hbegin)).2
    refine ⟨?_, by simp⟩
    rintro _ _ ⟨⟩
    refine ⟨asks, ?_⟩
    rintro _ ⟨⟩
    rfl
  | .ok none => exact ⟨by simp, by simp⟩
  | .error err => exact ⟨by simp, by simp⟩

theorem judged_of_outcome {a' : Attempt} {env : Surroundings} {late : Prop} {h : Hub σ}
    {out : Attempt.Step σ} (outcome : a'.Outcome env late h out) (calm : env.Calm)
    (same : ∀ a, c.attempt = some a → a'.master = a.master) (standing : c.standing = out.2) :
    c.Judged := by
  refine ⟨fun b stage going => ?_, fun a err began failed => ?_⟩
  · obtain ⟨hmaster, -, asked⟩ := outcome.goes b stage (standing ▸ going)
    rw [hmaster]
    exact ⟨asked, same⟩
  · rw [← same a began]
    cases outcome.fails err (standing ▸ failed) with
    | master blamed => exact .inl blamed
    | unasked refused => exact .inr (.inl (.peerSet _))
    | cancelled seen => simp [calm.wanted, calm.unrevoked] at seen
    | noUsablePeers waited => exact .inr (.inl .noUsablePeers)
    | chain unread => exact absurd unread (calm.answering _)
    | stateStore e => exact .inr (.inl (.stateStore e))
    | unknown head missing => exact .inr (.inr rfl)

variable [NodeStore σ]

theorem signal_judged (judged : c.Judged) {env : Surroundings} (calm : env.Calm) (signal : Signal) :
    (c.apply (.signal env signal)).Judged := by
  match standing : c.standing with
  | .error err =>
    have same : c.apply (.signal env signal) = c := by simp only [apply, standing]
    rwa [same]
  | .ok none =>
    have same : c.apply (.signal env signal) = c := by simp only [apply, standing]
    rwa [same]
  | .ok (some (a, stage)) =>
    obtain ⟨asked, same⟩ := judged.asks a stage standing
    rw [apply_signal signal standing]
    by_cases inserting : ∃ i, stage = .inserting i
    · obtain ⟨i, rfl⟩ := inserting
      refine ⟨?_, by simp [Attempt.step]⟩
      rintro _ _ ⟨⟩
      exact ⟨asked, same⟩
    · have other : ∀ i, stage ≠ .inserting i := fun i heq => inserting ⟨i, heq⟩
      exact judged_of_outcome (Attempt.step_outcome asked other signal) calm same rfl

theorem landed_judged (judged : c.Judged) {env : Surroundings} (calm : env.Calm) :
    (c.apply (.landed env (.ok ()))).Judged := by
  by_cases going : ∃ a i, c.standing = .ok (some (a, .inserting i))
  · obtain ⟨a, i, standing⟩ := going
    have outcome : a.Outcome env False c.hub (a.landed env c.hub i (.ok ())) :=
      Attempt.landed_outcome i
    rw [apply_landed _ standing]
    exact judged_of_outcome outcome calm (judged.asks a _ standing).2 rfl
  · have same : c.apply (.landed env (.ok ())) = c := by
      simp only [apply]
      split
      · exact absurd ⟨_, _, ‹_›⟩ going
      · rfl
    rwa [same]

theorem run_judged (judged : c.Judged) {occurrences : List (Occurrence σ)}
    (calm : ∀ o ∈ occurrences, o.Calm) : (c.run occurrences).Judged := by
  induction occurrences generalizing c with
  | nil => exact judged
  | cons o occurrences ih =>
    obtain ⟨now, later⟩ := List.forall_mem_cons.mp calm
    refine ih ?_ later
    cases o with
    | signal env signal => exact signal_judged judged now signal
    | landed env result =>
      obtain ⟨now, rfl⟩ := now
      exact landed_judged judged now
    | meanwhile hub => exact ⟨judged.asks, judged.fails⟩

/-- A master that never shows the head it advertised, or whose chain is lighter than it said, is
blamed by every attempt that comes to its end undisturbed. Only where nothing has to be imported,
since the local chain has as many blocks as the master claims, or where the next segment would not
fit 64 bits, the attempt may end well all the same, or with a block that the local chain does not
know, which is nobody's fault. -/
theorem lying_master_is_blamed (env : Surroundings) (mode : SyncMode) (target : Option Nat)
    (hub : Hub σ) (valid : hub.peers.config.validate = .ok ()) (occurrences : List (Occurrence σ))
    (calm : ∀ o ∈ occurrences, o.Calm) :
    let began := begin env mode target hub
    let c := began.run occurrences
    ∀ a, c.attempt = some a → a.target = a.master.info.head.toNat →
      (∀ h ∈ headersOf c.accepted, c.view.totalDifficulty h.hash ≠ .ok none) →
      (∀ g ∈ began.testimony occurrences, ¬ a.master.Advertised g) ∨
        (∀ total, c.view.totalDifficulty a.master.info.headHash = .ok (some total) →
          total.toNat < a.master.info.totalDifficulty.toNat) →
      (∀ err, c.standing = .error err → err.Blames a.master.id ∨ err.Aside ∨
        err = .unknownBlock a.master.info.headHash ∧
          ∃ origin, c.origin = some origin ∧ (a.target ≤ origin.height ∨
            hub.peers.config.StopsShort ((headersOf c.accepted).getLastD origin).number a.target)) ∧
      (c.standing = .ok none →
        ∃ origin, c.origin = some origin ∧ (a.target ≤ origin.height ∨
            hub.peers.config.StopsShort ((headersOf c.accepted).getLastD origin).number a.target) ∧
          ∃ total, c.view.totalDifficulty a.master.info.headHash = .ok (some total) ∧
            a.master.info.totalDifficulty.toNat ≤ total.toNat) := by
  intro began c a attempt head known lies
  have same : began.attempt = some a := (began.attempt_run occurrences).symm.trans attempt
  have kept : Kept (∃ g ∈ began.testimony occurrences, a.master.Advertised g) target c := by
    refine run_kept (begin_kept valid) occurrences fun b hb g hg advertised => ?_
    obtain rfl := Option.some.inj (same.symm.trans hb)
    exact ⟨g, hg, advertised⟩
  have config : c.hub.peers.config = hub.peers.config :=
    (config_run (begin_kept valid) occurrences).trans (config_begin ..)
  have judged : c.Judged := run_judged (begin_judged env mode target hub) calm
  refine ⟨fun err failed => ?_, fun done => ?_⟩
  · rcases judged.fails a err attempt failed with blamed | aside | rfl
    · exact .inl blamed
    · exact .inr (.inl aside)
    · refine .inr (.inr ⟨rfl, ?_⟩)
      cases origin : c.origin with
      | none =>
        obtain ⟨-, -, ⟨err, herr, other⟩ | ⟨b, search, hb, -⟩⟩ := kept.searching a attempt origin
        · cases failed.symm.trans herr
          exact absurd rfl (other _)
        · cases failed.symm.trans hb
      | some origin' =>
        have unknown := (kept.behind a origin' attempt origin).unknown _ failed
        rw [config] at unknown
        refine ⟨origin', rfl, unknown.stops.without_head unknown.chain head fun last hmem hash => ?_⟩
        exact absurd (hash ▸ unknown.missing) (known last hmem)
  · cases origin : c.origin with
    | none => exact absurd done (origin_unknown kept origin).2.2.2
    | some origin' =>
      have finished := (kept.behind a origin' attempt origin).finished done
      rw [config] at finished
      obtain ⟨total, weight, heavy⟩ := finished.heavy head
      refine ⟨origin', rfl, finished.stops.without_head finished.chain head ?_, total, weight, heavy⟩
      rintro last - - ⟨g, hg, advertised⟩
      rcases lies with unshown | light
      · exact unshown g hg advertised
      · have := light total weight
        omega

def failure? : Except SyncError Standing → Option SyncError
  | .ok _ => none
  | .error err => some err

theorem eq_error_of_failure? {standing : Except SyncError Standing} {err : SyncError}
    (failed : failure? standing = some err) : standing = .error err := by
  cases standing with
  | ok standing => cases failed
  | error err' =>
    obtain rfl := Option.some.inj failed
    rfl

end Course

namespace OneBlock

open Course

/-- The master has `block` where it advertised another one. -/
def impostor : SyncPeer := { master with info := { master.info with head := 1 } }

def deceived : Hub Simulation.NodeDatabase :=
  { hub with peers := { hub.peers with peers := [impostor] } }

def unmasking : List (Occurrence Simulation.NodeDatabase) :=
  [heard env 0 [genesis], heard env 1 [block]]

/-- The skeleton ends in another header than the one that was advertised. -/
theorem lying_master_is_blamed_for_its_skeleton :
    let c := (Course.begin env .full none deceived).run unmasking
    c.origin = some genesis ∧ genesis.height < impostor.info.head.toNat ∧
      ∃ err, c.standing = .error err ∧ err.Blames 1 := by
  have ran :
      let began := Course.begin env .full none deceived
      let c := began.run unmasking
      c.origin = some genesis ∧ c.accepted.length = 0 ∧
        failure? c.standing = some (.peerFault 1 .headers ⟨1, 1⟩
          "target header does not match the advertised head") ∧
        ∀ g ∈ began.testimony unmasking, g.hash ≠ impostor.info.headHash := by
    decide +kernel
  obtain ⟨known, nothing, ended, unshown⟩ := ran
  have began : ((Course.begin env .full none deceived).run unmasking).attempt =
      some ⟨.full, impostor, 1, none⟩ := (attempt_run ..).trans rfl
  have failed := eq_error_of_failure? ended
  have answering : ∀ err, ¬ env.view.Fails err := by
    rintro err (unread | unread | unread) <;> cases unread
  have calm : env.Calm := ⟨rfl, rfl, answering⟩
  obtain ⟨judged, -⟩ := lying_master_is_blamed env .full none deceived (by decide) unmasking
    (by simpa [unmasking, heard, Occurrence.Calm] using calm) _ began rfl
    (by simp [List.eq_nil_of_length_eq_zero nothing, headersOf])
    (.inl fun g hg advertised => unshown g hg advertised.2)
  refine ⟨known, by decide, _, failed, ?_⟩
  rcases judged _ failed with blamed | aside | ⟨unknown, -⟩
  · exact blamed
  · cases aside
  · cases unknown

end OneBlock

namespace Course

/-- A peer whose chain is genesis alone, with a head of its own choice. -/
def claimant (headHash : Hash) : SyncPeer where
  info :=
    { id := 1, version := 68, headHash, head := 0, totalDifficulty := .ofNat 17, forkId := none
      connection := 4 }
  state := .idle
  inFlight := .const 0
  throughput := .const 100.0
  rtt := none
  consecutiveTimeouts := 0

/-- A session of a local chain that is genesis alone, too. -/
def homeward (weight : Hash → Option U256) : Surroundings where
  engine := .default
  hasStore := true
  session := 1
  cancelled := false
  view :=
    { currentHeader := .ok {}, headerByHash := fun _ => .ok (some {})
      totalDifficulty := fun hash => .ok (weight hash) }

def visited (headHash : Hash) : Hub Simulation.NodeDatabase where
  peers := { config := {}, peers := [claimant headHash] }
  metrics := .zero
  board := ⟨{}, {}⟩

/-- The peer shows genesis as what both have, and there is nothing to import. -/
def meeting (headHash : Hash) (weight : Hash → Option U256) : Course Simulation.NodeDatabase :=
  (begin (homeward weight) .full none (visited headHash)).run
    [.signal (homeward weight) (.ended 0 (.answered (.headers [{}])))]

theorem meeting_checks (headHash : Hash) (weight : Hash → Option U256) :
    ∃ h : Hub Simulation.NodeDatabase, (meeting headHash weight).standing =
      (Attempt.checkTotalDifficulty ⟨.full, claimant headHash, 0, none⟩ (homeward weight) h).2 :=
  ⟨_, rfl⟩

/-- A head that the local chain does not have ends the session, and nobody is dropped for it. -/
theorem unknown_head_blames_nobody :
    let genesis : Header := {}
    let other := ~~~genesis.hash
    let c := meeting other fun hash => if hash = genesis.hash then some (.ofNat 17) else none
    c.origin = some genesis ∧ other ≠ genesis.hash ∧ c.standing = .error (.unknownBlock other) ∧
      (SyncError.unknownBlock other).isMasterFailure = false ∧
        (SyncError.unknownBlock other).peer? = none := by
  intro genesis other c
  have ne : other ≠ genesis.hash := by
    intro h
    have := congrArg (·.getLsbD 0) h
    simp [other] at this
  obtain ⟨h, checked⟩ := meeting_checks other fun hash =>
    if hash = genesis.hash then some (.ofNat 17) else none
  have standing : c.standing = _ := checked
  refine ⟨rfl, ne, ?_, rfl, rfl⟩
  rw [standing]
  simp [Attempt.checkTotalDifficulty, homeward, claimant, ne]

end Course
end ChainSync
