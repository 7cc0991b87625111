import ChainSync.Session.Session
set_option autoImplicit false

namespace ChainSync

open Fetch

/-- How far a request to synchronise has come. -/
inductive CallState where
  /-- Waits for the sessions before it to wind down. -/
  | waiting
  | running (session : Session)
  | returned (result : Except SyncError Unit)

/-- One request to synchronise. -/
structure StartCall where
  number : Nat
  mode : SyncMode
  target : Option Nat
  state : CallState

/-- Runs one session at a time. Every call replaces and cancels the one before it, and waits until
the running session has let go of the lock. -/
structure Downloader (σ : Type) where
  hub : Hub σ
  engine : Engine
  hasStore : Bool
  calls : List StartCall := []
  /-- The call whose session runs. -/
  lock : Option Nat := none
  /-- Calls that wait for the lock, in order. -/
  queue : List Nat := []
  /-- The latest call, which a cancellation is for. -/
  latest : Option Nat := none
  cancelled : List Nat := []
  sessions : Nat := 0

namespace Downloader

variable {σ : Type}

def create (config : Config) (peers : PeerSet) (store : σ) (engine : Engine) (hasStore : Bool) :
    Except ConfigError (Downloader σ) :=
  match config.validate with
  | .error err => .error err
  | .ok () => .ok { hub := { peers, board := ⟨{}, store⟩ }, engine, hasStore }

def progress (d : Downloader σ) : SyncProgress := d.hub.board.progress

def call? (d : Downloader σ) (number : Nat) : Option StartCall :=
  d.calls.find? (·.number == number)

def setState (d : Downloader σ) (number : Nat) (state : CallState) : Downloader σ :=
  { d with calls := d.calls.map fun c => if c.number = number then { c with state } else c }

def result? (d : Downloader σ) (number : Nat) : Option (Except SyncError Unit) :=
  match d.call? number with
  | some { state := .returned result, .. } => some result
  | _ => none

def isCancelled (d : Downloader σ) (number : Nat) : Bool := d.cancelled.contains number

/-- The session that holds the lock. -/
def running? (d : Downloader σ) : Option (Nat × Session) :=
  match d.lock with
  | none => none
  | some number =>
    match d.call? number with
    | some { state := .running session, .. } => some (number, session)
    | _ => none

def cancelLatest (d : Downloader σ) : Downloader σ :=
  match d.latest with
  | some number => { d with cancelled := d.cancelled.insert number }
  | none => d

/-- Nothing is handed to the local chain for the latest call after this. -/
def cancel (d : Downloader σ) : Downloader σ :=
  let d := d.cancelLatest
  { d with hub := d.hub.setProgress fun p =>
      if p.phase = .idle then p else { p with phase := .cancelled } }

/-- What the session of a call is given if it saw the call cancelled, or not, when it last looked. -/
def surroundings (d : Downloader σ) (view : ChainView) (number session : Nat) (seen : Bool) :
    Surroundings :=
  { engine := d.engine, hasStore := d.hasStore, session, cancelled := seen, view
    revoked := d.isCancelled number }

def closingPhase : Except SyncError Unit → SyncPhase
  | .error .cancelled => .cancelled
  | _ => .idle

/-- A session came to rest or to its end; its abandoned requests are called off either way. -/
def note (d : Downloader σ) (number : Nat) :
    Hub σ × (Session ⊕ Except SyncError Unit) → Downloader σ
  | (h, .inl session) => { d with hub := h.rest }.setState number (.running session)
  | (h, .inr result) =>
    { d with hub := (h.setPhase (closingPhase result)).rest, lock := none }.setState number
      (.returned result)

/-- Gives the lock to a call. -/
def grant (d : Downloader σ) (view : ChainView) (seen : Bool) (c : StartCall) : Downloader σ :=
  let session := d.sessions + 1
  let d := { d with
    sessions := session
    lock := some c.number
    hub := d.hub.setProgress fun _ => { mode := c.mode, phase := .selectingPeer } }
  d.note c.number
    (Session.begin (d.surroundings view c.number session seen) ⟨session, c.mode, c.target⟩ d.hub)

/-- A new call replaces and cancels the one before it, in one go. -/
def announce (d : Downloader σ) (mode : SyncMode) (target : Option Nat) : Downloader σ :=
  let number := d.calls.length
  let d := d.cancelLatest
  { d with
    latest := some number, calls := d.calls ++ [{ number, mode, target, state := .waiting }] }

/-- A call asks for the lock, behind those that have asked. -/
def enqueue (d : Downloader σ) (number : Nat) : Downloader σ := { d with queue := d.queue ++ [number] }

/-- Lets the first call that asked have a free lock. One that was superseded while it waited returns
at once. -/
def grantFirst (d : Downloader σ) (view : ChainView) (seen : Bool) : Downloader σ :=
  match d.lock, d.queue with
  | none, number :: rest =>
    let d := { d with queue := rest }
    if d.isCancelled number then d.setState number (.returned (.error .cancelled))
    else
      match d.call? number with
      | some c => d.grant view seen c
      | none => d
  | _, _ => d

/-- Passes a free lock on until a session keeps it. The fuel is the number of calls that asked. -/
def pass (view : ChainView) : Nat → Downloader σ → Downloader σ
  | 0, d => d
  | fuel + 1, d => pass view fuel (d.grantFirst view false)

/-- Starts a session towards a block, or towards the head of the best peer. The number names the
call from then on. -/
def start (d : Downloader σ) (view : ChainView) (mode : SyncMode) (target : Option Nat) :
    Nat × Downloader σ :=
  let number := d.calls.length
  let d := (d.announce mode target).enqueue number
  (number, pass view d.queue.length d)

variable [NodeStore σ]

/-- Passes a signal to the session that holds the lock. -/
def tell (d : Downloader σ) (view : ChainView) (seen : Bool) (s : Signal) : Downloader σ :=
  match d.running? with
  | none => d
  | some (number, session) =>
    d.note number (session.step (d.surroundings view number session.id seen) d.hub s)

/-- Passes on what the local chain answered to the session that holds the lock. -/
def answer (d : Downloader σ) (view : ChainView) (seen : Bool) (result : Except InsertError Unit) :
    Downloader σ :=
  match d.running? with
  | none => d
  | some (number, session) =>
    d.note number (session.landed (d.surroundings view number session.id seen) d.hub result)

/-- Passes a signal to the running session, and the lock on if that ends it. -/
def signal (d : Downloader σ) (view : ChainView) (s : Signal) : Downloader σ :=
  let d := d.tell view (d.lock.any d.isCancelled) s
  pass view d.queue.length d

/-- Passes on what the local chain answered to the running session, and the lock if that ends it. -/
def landed (d : Downloader σ) (view : ChainView) (result : Except InsertError Unit) :
    Downloader σ :=
  let d := d.answer view (d.lock.any d.isCancelled) result
  pass view d.queue.length d

omit [NodeStore σ] in
/-- The batch that the running session has handed over. -/
def handedOver? (d : Downloader σ) : Option Insertion :=
  match d.running? with
  | some (_, session) => session.handedOver?
  | none => none

end Downloader
end ChainSync
