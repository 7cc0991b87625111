import ChainSync.Session.Attempt
set_option autoImplicit false

namespace ChainSync

open Fetch

/-- A session under way: its current attempt, what that waits for, and how many more attempts it
may make. -/
structure Session where
  id : Nat
  mode : SyncMode
  target : Option Nat
  attemptsLeft : Nat
  attempt : Attempt
  stage : Stage

namespace Session

variable {σ : Type} [NodeStore σ]

/-- What a session was asked for. -/
structure Order where
  id : Nat
  mode : SyncMode
  target : Option Nat

omit [NodeStore σ] in
/-- Drops a master that failed and tries the next one, as long as attempts are left; every other
outcome is the session's. -/
def resolve (env : Surroundings) (o : Order) :
    Nat → Attempt.Step σ → Hub σ × (Session ⊕ Except SyncError Unit)
  | attemptsLeft, (h, .ok (some (attempt, stage))) =>
    (h, .inl { id := o.id, mode := o.mode, target := o.target, attemptsLeft, attempt, stage })
  | _, (h, .ok none) => (h, .inr (.ok ()))
  | attemptsLeft, (h, .error err) =>
    if err.isMasterFailure then
      let h :=
        match err.peer? with
        | some peer => h.setPeers (h.peers.drop peer)
        | none => h
      match attemptsLeft with
      | 0 => (h, .inr (.error err))
      | n + 1 => resolve env o n (Attempt.begin env o.mode o.target h)
    else (h, .inr (.error err))

omit [NodeStore σ] in
def begin (env : Surroundings) (o : Order) (h : Hub σ) :
    Hub σ × (Session ⊕ Except SyncError Unit) :=
  resolve env o (h.peers.config.maxMasterAttempts.toNat - 1) (Attempt.begin env o.mode o.target h)

def order (s : Session) : Order := ⟨s.id, s.mode, s.target⟩

def step (s : Session) (env : Surroundings) (h : Hub σ) (signal : Signal) :
    Hub σ × (Session ⊕ Except SyncError Unit) :=
  resolve env s.order s.attemptsLeft (s.attempt.step env h s.stage signal)

/-- The local chain has answered to the batch that the session handed over. -/
def landed (s : Session) (env : Surroundings) (h : Hub σ) (result : Except InsertError Unit) :
    Hub σ × (Session ⊕ Except SyncError Unit) :=
  match s.stage with
  | .inserting insertion =>
    resolve env s.order s.attemptsLeft (s.attempt.landed env h insertion result)
  | _ => (h, .inl s)

/-- The batch that waits for the local chain's answer. -/
def handedOver? (s : Session) : Option Insertion :=
  match s.stage with
  | .inserting insertion => some insertion
  | _ => none

end Session
end ChainSync
