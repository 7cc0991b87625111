import ChainSync.Config
import ChainSync.Consensus
import ChainSync.Json.Codec
import ChainSync.Range
set_option autoImplicit false

namespace ChainSync

open Json

namespace Category

def jsonName : Category → String
  | .headers => "headers"
  | .bodies => "bodies"
  | .receipts => "receipts"
  | .stateNodes => "state_nodes"

def ofJsonName? (s : String) : Option Category := all.find? (·.jsonName == s)

/-- A bare name, or the name as the only field of an object that holds nothing. -/
instance : Codec Category where
  encode c := .string (.ofString c.jsonName)
  decode?
    | .string t => t.string?.bind ofJsonName?
    | .object [(t, .null)] => t.string?.bind ofJsonName?
    | _ => none

end Category

instance : Codec Range where
  encode r := ofRecord ["start", "count"] [Json.ofNat r.start, Json.ofNat r.count]
  decode? v :=
    match record? ["start", "count"] v with
    | some [some start, some count] => do
      return ⟨← natural? UInt64.size start, ← natural? UInt64.size count⟩
    | _ => none

namespace Engine

/-- How deep values may be nested in an object whose kind is not known yet. -/
def maxDepth : Nat := 126

/-- The value of the tag and the other fields, all of which are kept until the tag is known. -/
def untag? : List (Text × Value) → Option (Option Value × List (Text × Value))
  | [] => some (none, [])
  | (k, v) :: rest => do
    let name ← k.string?
    let (tag, others) ← untag? rest
    if name = "engine" then
      if tag.isSome then none else some (some v, others)
    else if v.storable maxDepth then some (tag, (k, v) :: others)
    else none

/-- The parameters of an engine of a given name. -/
def ofTag? (tag : Value) (parameters : Value) : Option Engine :=
  match tag with
  | .string t =>
    if t.string? = some "ethash" then
      match record? ["minimum_difficulty"] parameters with
      | some [some minimum] => (Codec.decode? minimum).map .ethash
      | _ => none
    else if t.string? = some "clique" then
      match record? ["period", "epoch"] parameters with
      | some [some period, some epoch] => do
        return .clique (← Codec.decode? period) (← Codec.decode? epoch)
      | _ => none
    else none
  | _ => none

instance : Codec Engine where
  encode
    | .ethash minimum =>
      ofRecord ["engine", "minimum_difficulty"]
        [.string (.ofString "ethash"), Codec.encode minimum]
    | .clique period epoch =>
      ofRecord ["engine", "period", "epoch"]
        [.string (.ofString "clique"), Codec.encode period, Codec.encode epoch]
  decode?
    | .object fs =>
      match untag? fs with
      | some (some tag, parameters) => ofTag? tag (.object parameters)
      | _ => none
    | .array (tag :: parameters) =>
      if parameters.all (·.storable maxDepth) then ofTag? tag (.array parameters) else none
    | _ => none

end Engine

/-- Durations are counted in milliseconds. -/
instance : Codec Duration where
  encode d := Json.ofNat d.millis
  decode? v := (natural? UInt64.size v).map Duration.ofMillis

namespace Config

def fieldNames : List String :=
  ["header_batch_size", "skeleton_size", "max_block_bodies", "max_receipts", "max_state_nodes",
   "max_in_flight_per_peer", "target_rtt", "min_request_timeout", "max_request_timeout",
   "max_peer_timeouts", "peer_wait_timeout", "max_state_fetch", "pivot_distance",
   "max_fork_ancestry", "max_master_attempts", "state_commit_batch", "skeleton_mismatch_limit"]

/-- A field that is left out has its default. -/
def field? {α : Type} [Codec α] (default : α) : Option Value → Option α
  | none => some default
  | some v => Codec.decode? v

/-- Every field has a default, but to leave out the time to wait for peers means to wait for
ever. -/
instance : Codec Config where
  encode c := ofRecord fieldNames
    [Codec.encode c.headerBatchSize, Codec.encode c.skeletonSize, Codec.encode c.maxBlockBodies,
     Codec.encode c.maxReceipts, Codec.encode c.maxStateNodes, Codec.encode c.maxInFlightPerPeer,
     Codec.encode c.targetRtt, Codec.encode c.minRequestTimeout, Codec.encode c.maxRequestTimeout,
     Codec.encode c.maxPeerTimeouts, Codec.encode c.peerWaitTimeout, Codec.encode c.maxStateFetch,
     Codec.encode c.pivotDistance, Codec.encode c.maxForkAncestry,
     Codec.encode c.maxMasterAttempts, Codec.encode c.stateCommitBatch,
     Codec.encode c.skeletonMismatchLimit]
  decode? v :=
    let d : Config := {}
    match record? fieldNames v with
    | some [headerBatchSize, skeletonSize, maxBlockBodies, maxReceipts, maxStateNodes,
        maxInFlightPerPeer, targetRtt, minRequestTimeout, maxRequestTimeout, maxPeerTimeouts,
        peerWaitTimeout, maxStateFetch, pivotDistance, maxForkAncestry, maxMasterAttempts,
        stateCommitBatch, skeletonMismatchLimit] => do
      return {
        headerBatchSize := ← field? d.headerBatchSize headerBatchSize
        skeletonSize := ← field? d.skeletonSize skeletonSize
        maxBlockBodies := ← field? d.maxBlockBodies maxBlockBodies
        maxReceipts := ← field? d.maxReceipts maxReceipts
        maxStateNodes := ← field? d.maxStateNodes maxStateNodes
        maxInFlightPerPeer := ← field? d.maxInFlightPerPeer maxInFlightPerPeer
        targetRtt := ← field? d.targetRtt targetRtt
        minRequestTimeout := ← field? d.minRequestTimeout minRequestTimeout
        maxRequestTimeout := ← field? d.maxRequestTimeout maxRequestTimeout
        maxPeerTimeouts := ← field? d.maxPeerTimeouts maxPeerTimeouts
        peerWaitTimeout := ← field? none peerWaitTimeout
        maxStateFetch := ← field? d.maxStateFetch maxStateFetch
        pivotDistance := ← field? d.pivotDistance pivotDistance
        maxForkAncestry := ← field? d.maxForkAncestry maxForkAncestry
        maxMasterAttempts := ← field? d.maxMasterAttempts maxMasterAttempts
        stateCommitBatch := ← field? d.stateCommitBatch stateCommitBatch
        skeletonMismatchLimit := ← field? d.skeletonMismatchLimit skeletonMismatchLimit }
    | _ => none

end Config
end ChainSync
