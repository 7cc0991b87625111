import ChainSync.Block.Header
import ChainSync.Peer.Request
import ChainSync.SyncError
set_option autoImplicit false

namespace ChainSync

/-- Multiples of `size` above `start` and up to `stop`. The sums are unbounded; in 64 bits they
would be the same as long as `max start stop + size` fits. -/
def spacedPositions (start stop size : Nat) : List Nat :=
  (List.range ((stop - start) / size)).map fun i => start + (i + 1) * size

/-- The blocks that close the gaps between `start`, left out, and `stop`: one every `size` blocks,
and the last one. -/
def skeletonPositions (start stop size : Nat) : List Nat :=
  let spaced := spacedPositions start stop size
  if spaced.getLast? ≠ some stop ∧ stop > start then spaced ++ [stop] else spaced

/-- The requests for a skeleton: one for the evenly spaced headers and one for the rest. -/
def skeletonRequests (start stop size : Nat) : List HeadersRequest :=
  let positions := skeletonPositions start stop size
  let spaced := positions.filter fun n => (n - start) % size == 0
  (match spaced with
    | [] => []
    | first :: _ => [.spaced first spaced.length (size - 1)]) ++
  (if spaced.length < positions.length then [.single (.number stop)] else [])

/-- Only the numbers of a skeleton can be checked at once. -/
def checkSkeleton (master : PeerId) (start stop size : Nat) (skeleton : List Header) :
    Except SyncError (List Header) :=
  let positions := skeletonPositions start stop size
  if skeleton.map Header.height ≠ positions then
    .error (.peerFault master .headers ⟨start + 1, stop - start⟩
      s!"skeleton has {skeleton.length} headers, expected {positions.length}")
  else .ok skeleton

end ChainSync
