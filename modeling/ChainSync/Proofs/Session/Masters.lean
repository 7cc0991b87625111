import ChainSync.Proofs.Session.Course
import ChainSync.Proofs.Session.Outcome
import ChainSync.Session.Session
set_option autoImplicit false

/-!
How a session goes from one master to the next, what it waits for meanwhile, and which failures it
passes on to its caller.
-/

namespace ChainSync

open Fetch

theorem Attempt.begin_asks {σ : Type} {env : Surroundings} {mode : SyncMode}
    {target : Option Nat} {h : Hub σ} {a : Attempt} {stage : Stage}
    (begun : (begin env mode target h).2 = .ok (some (a, stage))) :
    (∀ i, stage ≠ .inserting i) ∧ stage.AskedOf a.master := by
  rcases begin_cases env mode target h with ⟨err, failed⟩ | ⟨a', search, searching, asked, -⟩
  · cases begun.symm.trans failed
  · cases begun.symm.trans searching
    exact ⟨by simp, asked⟩

namespace Session

variable {σ : Type} {env : Surroundings} {o : Order} {h : Hub σ} {err : SyncError}

theorem master_failure (failure : err.isMasterFailure = true) : ∃ peer, err.Blames peer := by
  cases err with
  | peerFault peer category range reason => exact ⟨peer, rfl, rfl⟩
  | timeout peer category range => exact ⟨peer, rfl, rfl⟩
  | ancestorNotFound peer reason => exact ⟨peer, rfl, rfl⟩
  | _ => cases failure

/-- The hub once the master that an error is held against was dropped. -/
def dropBlamed (h : Hub σ) (err : SyncError) : Hub σ :=
  match err.peer? with
  | some peer => h.setPeers (h.peers.drop peer)
  | none => h

theorem dropBlamed_eq {peer : PeerId} (blamed : err.Blames peer) :
    dropBlamed h err = h.setPeers (h.peers.drop peer) := by
  simp [dropBlamed, blamed.named]

/-- The masters that a session turns to after a step of its attempt, by the number of attempts
left. -/
def successors (env : Surroundings) (o : Order) : Nat → Attempt.Step σ → List SyncPeer
  | n + 1, (h, .error err) =>
    if err.isMasterFailure then
      (Attempt.master? (dropBlamed h err)).toList ++
        successors env o n (Attempt.begin env o.mode o.target (dropBlamed h err))
    else []
  | _, _ => []

/-- What a session makes of a step of its attempt, by the number of attempts left, and the masters
that it turns to on the way. -/
inductive Resolved (env : Surroundings) (o : Order) :
    Nat → Attempt.Step σ → List SyncPeer → Hub σ × (Session ⊕ Except SyncError Unit) → Prop where
  | going (n : Nat) (h : Hub σ) (attempt : Attempt) (stage : Stage) :
    Resolved env o n (h, .ok (some (attempt, stage))) []
      (h, .inl ⟨o.id, o.mode, o.target, n, attempt, stage⟩)
  | done (n : Nat) (h : Hub σ) : Resolved env o n (h, .ok none) [] (h, .inr (.ok ()))
  | failed (n : Nat) (h : Hub σ) {err : SyncError} (other : err.isMasterFailure = false) :
    Resolved env o n (h, .error err) [] (h, .inr (.error err))
  | last (h : Hub σ) {err : SyncError} {master : PeerId} (blamed : err.Blames master) :
    Resolved env o 0 (h, .error err) [] (h.setPeers (h.peers.drop master), .inr (.error err))
  /-- The failed master is dropped before the next one is chosen. -/
  | next {n : Nat} {h : Hub σ} {err : SyncError} {master : PeerId} {masters : List SyncPeer}
      {out : Hub σ × (Session ⊕ Except SyncError Unit)} (blamed : err.Blames master)
      (rest : Resolved env o n
        (Attempt.begin env o.mode o.target (h.setPeers (h.peers.drop master))) masters out) :
    Resolved env o (n + 1) (h, .error err)
      ((Attempt.master? (h.setPeers (h.peers.drop master))).toList ++ masters) out

theorem resolve_resolved (n : Nat) (out : Attempt.Step σ) :
    Resolved env o n out (successors env o n out) (resolve env o n out) := by
  induction n generalizing out with
  | zero =>
    obtain ⟨h, result⟩ := out
    match result with
    | .ok (some (attempt, stage)) => exact .going ..
    | .ok none => exact .done ..
    | .error err =>
      by_cases failure : err.isMasterFailure = true
      · obtain ⟨peer, blamed⟩ := master_failure failure
        have resolved : Resolved env o 0 (h, .error err) []
            (h.setPeers (h.peers.drop peer), .inr (.error err)) := .last h blamed
        simpa [resolve, successors, blamed.failure, blamed.named] using resolved
      · rw [Bool.not_eq_true] at failure
        simpa [resolve, successors, failure] using Resolved.failed 0 h failure
  | succ n ih =>
    obtain ⟨h, result⟩ := out
    match result with
    | .ok (some (attempt, stage)) => exact .going ..
    | .ok none => exact .done ..
    | .error err =>
      by_cases failure : err.isMasterFailure = true
      · obtain ⟨peer, blamed⟩ := master_failure failure
        have rest := ih (Attempt.begin env o.mode o.target (h.setPeers (h.peers.drop peer)))
        simpa [resolve, successors, dropBlamed_eq blamed, blamed.failure, blamed.named] using
          Resolved.next blamed rest
      · rw [Bool.not_eq_true] at failure
        simpa [resolve, successors, failure] using Resolved.failed (n + 1) h failure

/-- A session that goes on hands a batch over only while it is wanted, and asks its master. -/
structure Settled (env : Surroundings) (out : Hub σ × (Session ⊕ Except SyncError Unit)) :
    Prop where
  heeds : ∀ s i, out.2 = .inl s → s.handedOver? = some i → env.revoked = false
  asks : ∀ s, out.2 = .inl s → s.stage.AskedOf s.attempt.master

theorem Settled.ended (h : Hub σ) (result : Except SyncError Unit) : Settled env (h, .inr result) :=
  ⟨by simp, by simp⟩

theorem Resolved.settled {n : Nat} {out : Attempt.Step σ} {masters : List SyncPeer}
    {settled : Hub σ × (Session ⊕ Except SyncError Unit)}
    (resolved : Resolved env o n out masters settled)
    (heeds : ∀ a i, out.2 = .ok (some (a, .inserting i)) → env.revoked = false)
    (asks : ∀ a stage, out.2 = .ok (some (a, stage)) → stage.AskedOf a.master) :
    Settled env settled := by
  induction resolved with
  | going n h attempt stage =>
    refine ⟨?_, ?_⟩
    · rintro s i ⟨⟩ handed
      cases stage <;> cases handed
      exact heeds attempt i rfl
    · rintro s ⟨⟩
      exact asks attempt stage rfl
  | done n h => exact .ended ..
  | failed n h other => exact .ended ..
  | last h blamed => exact .ended ..
  | next blamed rest ih =>
    refine ih (fun a i begun => ?_) fun a stage begun => (Attempt.begin_asks begun).2
    exact absurd rfl ((Attempt.begin_asks begun).1 i)

theorem begin_settled (env : Surroundings) (o : Order) (h : Hub σ) :
    Settled env (begin env o h) := by
  refine (resolve_resolved _ _).settled (fun a i begun => ?_)
    fun a stage begun => (Attempt.begin_asks begun).2
  exact absurd rfl ((Attempt.begin_asks begun).1 i)

theorem resolve_settled {a : Attempt} {late : Prop} {out : Attempt.Step σ}
    (outcome : a.Outcome env late h out) (n : Nat) : Settled env (resolve env o n out) := by
  refine (resolve_resolved n out).settled outcome.heeds fun a' stage going => ?_
  obtain ⟨same, -, asked⟩ := outcome.goes a' stage going
  exact same ▸ asked

variable [NodeStore σ] {s : Session}

theorem step_settled (asks : s.stage.AskedOf s.attempt.master) (idle : s.handedOver? = none)
    (env : Surroundings) (h : Hub σ) (signal : Signal) : Settled env (s.step env h signal) := by
  have other : ∀ i, s.stage ≠ .inserting i := by
    intro i heq
    simp [handedOver?, heq] at idle
  have outcome : s.attempt.Outcome env (signal = .deadline) h
      (s.attempt.step env h s.stage signal) := Attempt.step_outcome asks other signal
  exact resolve_settled outcome _

/-- A session that has handed a batch over waits for the answer, whatever it is told. -/
theorem step_inserting {i : Insertion} (handed : s.handedOver? = some i) (env : Surroundings)
    (h : Hub σ) (signal : Signal) : s.step env h signal = (h, .inl s) := by
  obtain ⟨id, mode, target, n, attempt, stage⟩ := s
  cases stage <;> cases handed
  cases n <;> rfl

theorem landed_settled (asks : s.stage.AskedOf s.attempt.master) {i : Insertion}
    (handed : s.handedOver? = some i) (env : Surroundings) (h : Hub σ)
    (result : Except InsertError Unit) : Settled env (s.landed env h result) := by
  obtain ⟨id, mode, target, n, attempt, stage⟩ := s
  cases stage <;> cases handed
  cases result with
  | ok =>
    have outcome : attempt.Outcome env False h (attempt.landed env h i (.ok ())) :=
      Attempt.landed_outcome i
    exact resolve_settled outcome _
  | error err =>
    obtain ⟨h', err', refused, -⟩ := Attempt.refused_eq h i err
    have failed : attempt.landed env h i (.error err) = (h', .error err') := refused
    refine (resolve_resolved _ _).settled ?_ ?_ <;> simp [failed]

/-- A session that has handed nothing over has nothing to be told by the local chain. -/
theorem landed_idle (idle : s.handedOver? = none) (env : Surroundings) (h : Hub σ)
    (result : Except InsertError Unit) : s.landed env h result = (h, .inl s) := by
  obtain ⟨id, mode, target, n, attempt, stage⟩ := s
  cases stage <;> first | rfl | cases idle

theorem step_asks (asks : s.stage.AskedOf s.attempt.master) (env : Surroundings) (h : Hub σ)
    (signal : Signal) {s' : Session} (going : (s.step env h signal).2 = .inl s') :
    s'.stage.AskedOf s'.attempt.master := by
  cases handed : s.handedOver? with
  | none => exact (step_settled asks handed env h signal).asks s' going
  | some i =>
    rw [step_inserting handed] at going
    cases going
    exact asks

theorem landed_asks (asks : s.stage.AskedOf s.attempt.master) (env : Surroundings) (h : Hub σ)
    (result : Except InsertError Unit) {s' : Session}
    (going : (s.landed env h result).2 = .inl s') : s'.stage.AskedOf s'.attempt.master := by
  cases handed : s.handedOver? with
  | none =>
    rw [landed_idle handed] at going
    cases going
    exact asks
  | some i => exact (landed_settled asks handed env h result).asks s' going

end Session
end ChainSync
