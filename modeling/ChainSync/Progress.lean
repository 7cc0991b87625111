import ChainSync.Word
set_option autoImplicit false

namespace ChainSync

inductive SyncMode where
  /-- Headers only. -/
  | light
  /-- Every block is executed. -/
  | full
  /-- Blocks up to a pivot are stored with their receipts, the pivot's state is fetched node by
  node, the rest is executed. -/
  | snap
  deriving DecidableEq, Repr

def SyncMode.name : SyncMode → String
  | .light => "light"
  | .full => "full"
  | .snap => "snap"

inductive SyncPhase where
  | idle
  | selectingPeer
  | negotiatingAncestor
  | fetchingHeaders
  | fetchingBodiesAndReceipts
  | fetchingState
  | committing
  | cancelled
  deriving DecidableEq, Repr

def SyncPhase.name : SyncPhase → String
  | .idle => "idle"
  | .selectingPeer => "selecting_peer"
  | .negotiatingAncestor => "negotiating_ancestor"
  | .fetchingHeaders => "fetching_headers"
  | .fetchingBodiesAndReceipts => "fetching_bodies_and_receipts"
  | .fetchingState => "fetching_state"
  | .committing => "committing"
  | .cancelled => "cancelled"

/-- How far the running session, or the last one, has come. -/
structure SyncProgress where
  mode : SyncMode := .full
  phase : SyncPhase := .idle
  origin : Nat := 0
  current : Nat := 0
  target : Nat := 0
  pivot : Option Nat := none
  headers : Nat := 0
  bodies : Nat := 0
  receipts : Nat := 0
  stateNodes : Nat := 0
  pendingStateNodes : Nat := 0
  deriving DecidableEq, Repr

/-- Published after every batch the local chain accepted. -/
structure ChainHead where
  number : UInt64
  hash : Hash
  deriving DecidableEq, Repr

end ChainSync
