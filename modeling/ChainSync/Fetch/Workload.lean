import ChainSync.Peer.Request
import ChainSync.Progress
import ChainSync.SyncError
set_option autoImplicit false

namespace ChainSync.Fetch

/-- What became of an answer. -/
inductive Delivery where
  /-- The items were kept; if fewer than asked for, the rest was put back. -/
  | accepted (items : Nat)
  /-- Nobody waits for this request any more. -/
  | stale (items : Nat)
  /-- It contradicts what another peer said, and it is not known yet who lies. -/
  | disputed (items : Nat) (reason : String)
  /-- The peer sent something invalid; what came before that was kept. -/
  | rejected (accepted dropped : Nat) (reason : String)
  deriving DecidableEq, Repr

/-- Work for one peer. -/
structure Assignment where
  id : RequestId
  range : Range
  request : Request
  deriving DecidableEq, Repr

/-- Where tasks leave their results besides what they hold themselves. -/
structure Board (σ : Type) where
  progress : SyncProgress
  store : σ

/-- Something to be fetched from several peers at once. -/
class Workload (τ : Type) where
  category : τ → Category
  isDone : τ → Bool
  /-- The next piece of work that the peer may have, of at most as many items as it can take. -/
  reserve : τ → PeerId → Nat → List PeerId → Option (Assignment × τ)
  /-- Puts a lost request back; tells whether anyone still waited for it. -/
  fail : τ → RequestId → Bool × τ
  failPeer : τ → PeerId → Nat × τ

/-- Judges an answer and keeps what is good of it. An error ends the fetch. -/
class Receiver (σ τ : Type) where
  deliver : τ → Board σ → RequestId → PeerId → Payload → τ × Board σ × Except SyncError Delivery

end ChainSync.Fetch
