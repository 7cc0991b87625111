import ChainSync.Duration
import ChainSync.Category
set_option autoImplicit false

namespace ChainSync

/-- Sizes, limits and times of a synchronisation. -/
structure Config where
  headerBatchSize : UInt64 := 192
  skeletonSize : UInt64 := 128
  maxBlockBodies : UInt64 := 128
  maxReceipts : UInt64 := 256
  maxStateNodes : UInt64 := 384
  maxInFlightPerPeer : UInt64 := 1
  targetRtt : Duration := .ofSecs 1
  minRequestTimeout : Duration := .ofSecs 2
  maxRequestTimeout : Duration := .ofSecs 15
  maxPeerTimeouts : UInt32 := 3
  /-- Nothing here means to wait for peers for ever. -/
  peerWaitTimeout : Option Duration := some (.ofSecs 60)
  maxStateFetch : Duration := .ofSecs 3600
  pivotDistance : UInt64 := 64
  maxForkAncestry : UInt64 := 90000
  maxMasterAttempts : UInt32 := 3
  stateCommitBatch : UInt64 := 1024
  skeletonMismatchLimit : UInt64 := 2
  deriving DecidableEq, Repr

inductive ConfigError where
  | zero (field : String)
  | timeoutBounds (min max : Duration)
  deriving DecidableEq, Repr

def ConfigError.message : ConfigError → String
  | .zero field => field ++ " must be greater than zero"
  | .timeoutBounds min max =>
    "min_request_timeout (" ++ min.text ++ ") is above max_request_timeout (" ++ max.text ++ ")"

namespace Config

/-- Every one of these has to be positive; the first that is not is reported. -/
def sizes (c : Config) : List (String × Nat) :=
  [("header_batch_size", c.headerBatchSize.toNat), ("skeleton_size", c.skeletonSize.toNat),
   ("max_block_bodies", c.maxBlockBodies.toNat), ("max_receipts", c.maxReceipts.toNat),
   ("max_state_nodes", c.maxStateNodes.toNat),
   ("max_in_flight_per_peer", c.maxInFlightPerPeer.toNat),
   ("max_peer_timeouts", c.maxPeerTimeouts.toNat),
   ("max_master_attempts", c.maxMasterAttempts.toNat),
   ("state_commit_batch", c.stateCommitBatch.toNat),
   ("skeleton_mismatch_limit", c.skeletonMismatchLimit.toNat)]

def validate (c : Config) : Except ConfigError Unit :=
  match c.sizes.find? (·.2 == 0) with
  | some (field, _) => .error (.zero field)
  | none =>
    if c.targetRtt.nanos = 0 then .error (.zero "target_rtt")
    else if c.maxRequestTimeout < c.minRequestTimeout then
      .error (.timeoutBounds c.minRequestTimeout c.maxRequestTimeout)
    else .ok ()

/-- How many headers one skeleton spans, in 64 bits. -/
def segmentLength (c : Config) : UInt64 := c.headerBatchSize * c.skeletonSize

/-- The most items to ask one peer for at once. -/
def maxItems (c : Config) : Category → Nat
  | .headers => c.headerBatchSize.toNat
  | .bodies => c.maxBlockBodies.toNat
  | .receipts => c.maxReceipts.toNat
  | .stateNodes => c.maxStateNodes.toNat

end Config
end ChainSync
