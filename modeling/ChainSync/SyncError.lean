import ChainSync.Chain
import ChainSync.Peer.Set
import ChainSync.Range
set_option autoImplicit false

namespace ChainSync

/-- Why a fetch or a whole session ended without success. -/
inductive SyncError where
  | peerFault (peer : PeerId) (category : Category) (range : Range) (reason : String)
  | timeout (peer : PeerId) (category : Category) (range : Range)
  | validationFailure (category : Category) (range : Range) (peer : Option PeerId) (reason : String)
  | noUsablePeers
  | ancestorNotFound (peer : PeerId) (reason : String)
  | cancelled
  | invalidTarget (target head : Nat)
  | chain (error : ChainError)
  | stateStore (error : StoreError)
  | peerSet (error : PeerSetError)
  | unknownBlock (hash : Hash)
  deriving DecidableEq, Repr

namespace SyncError

def message : SyncError → String
  | .peerFault peer category range reason =>
    s!"Peer {peer.text} misbehaved serving {category.shortName} {range.text}: {reason}"
  | .timeout peer category range =>
    s!"Peer {peer.text} timed out serving {category.shortName} {range.text}"
  | .validationFailure category range _ reason =>
    s!"Invalid {category.shortName} {range.text}: {reason}"
  | .noUsablePeers => "No usable peers to sync from"
  | .ancestorNotFound peer reason => s!"Common ancestor with peer {peer.text} not found: {reason}"
  | .cancelled => "Sync cancelled"
  | .invalidTarget target head => s!"Invalid sync target {target}, peer head is {head}"
  | .chain error => error.message
  | .stateStore error => error.message
  | .peerSet error => s!"Error in Peer Set: {error.message}"
  | .unknownBlock hash => s!"Unknown block {hash.text}"

/-- Whether a new session may succeed where this one failed: only the local databases are final. -/
def isRecoverable : SyncError → Bool
  | .chain _ | .stateStore _ => false
  | _ => true

/-- The peer that the error is held against. -/
def peer? : SyncError → Option PeerId
  | .peerFault peer .. | .timeout peer .. | .ancestorNotFound peer _ => some peer
  | .validationFailure _ _ peer _ => peer
  | _ => none

/-- Failures of the master peer, worth another try with a different one. -/
def isMasterFailure : SyncError → Bool
  | .peerFault .. | .timeout .. | .ancestorNotFound .. => true
  | _ => false

end SyncError
end ChainSync
