import ChainSync.Positioned
import ChainSync.Range
import ChainSync.Word
set_option autoImplicit false

namespace ChainSync.Fetch

/-- Positions that wait to be handed out, with the peers that failed to serve them. -/
structure Pending where
  count : Nat
  failedBy : List PeerId
  deriving DecidableEq, Repr

/-- Positions that one peer was asked for. -/
structure InFlight where
  peer : PeerId
  range : Range
  failedBy : List PeerId
  deriving DecidableEq, Repr

/-- Work over the positions from a start up to `stop`. Pending ranges are handed out lowest first;
delivered items gather by position and leave in order, without gaps. -/
structure Queue (α : Type) where
  session : Nat
  nextAttempt : Nat := 0
  pending : Positioned Pending
  inFlight : List (RequestId × InFlight) := []
  delivered : Positioned α := []
  nextRelease : Nat
  stop : Nat
  /-- Whether part of a pending range may be handed out. -/
  splittable : Bool
  deriving DecidableEq, Repr

/-- Ranges of `size` positions, the last one shorter; a size of zero counts as one. -/
def cut (size start count : Nat) : List Range :=
  if count = 0 then []
  else
    let n := min (max size 1) count
    ⟨start, n⟩ :: cut size (start + n) (count - n)
termination_by count
decreasing_by omega

/-- A peer may serve what it has not failed, and all may once everyone has failed it. -/
def Pending.eligible (b : Pending) (peer : PeerId) (live : List PeerId) : Bool :=
  !b.failedBy.contains peer || live.all b.failedBy.contains

/-- Handing work to a peer that failed it forgets all failures. -/
def Pending.retry (b : Pending) (peer : PeerId) : Pending :=
  if b.failedBy.contains peer then { b with failedBy := [] } else b

namespace Queue

variable {α : Type}

/-- Empty ranges hold no work. -/
def ofRanges (session : Nat) (ranges : List Range) (splittable : Bool) : Queue α :=
  let start := (ranges.head?.map (·.start)).getD 0
  { session
    pending := (ranges.filter (·.count > 0)).foldl
      (fun m r => m.insert r.start ⟨r.count, []⟩) []
    nextRelease := start
    stop := (ranges.getLast?.map (·.stop)).getD start
    splittable }

def ofCount (session start count size : Nat) (splittable : Bool) : Queue α :=
  { ofRanges session (cut size start count) splittable with
    nextRelease := start, stop := start + count }

/-- Hands the lowest eligible work to the peer: all of it, or as much as the peer can take. -/
def reserve (q : Queue α) (peer : PeerId) (capacity : Nat) (live : List PeerId) :
    Option (RequestId × Range × Queue α) :=
  match q.pending.find? (·.2.eligible peer live) with
  | none => none
  | some (start, batch) =>
    let batch := batch.retry peer
    let count :=
      if q.splittable ∧ batch.count > max capacity 1 then max capacity 1 else batch.count
    let range : Range := ⟨start, count⟩
    let others := q.pending.erase start
    let pending :=
      if count < batch.count then
        others.insert range.stop { batch with count := batch.count - count }
      else others
    let id : RequestId := ⟨q.session, q.nextAttempt⟩
    some (id, range,
      { q with
        nextAttempt := q.nextAttempt + 1
        pending
        inFlight := q.inFlight ++ [(id, ⟨peer, range, batch.failedBy⟩)] })

/-- Takes a request out; one that is not there any more is stale. -/
def take? (q : Queue α) (id : RequestId) : Option (InFlight × Queue α) :=
  (q.inFlight.lookup id).map fun r => (r, { q with inFlight := q.inFlight.filter (·.1 != id) })

def requeue (q : Queue α) (range : Range) (failedBy : List PeerId) : Queue α :=
  if range.count = 0 then q
  else { q with pending := q.pending.insert range.start ⟨range.count, failedBy⟩ }

/-- Keeps the items at the front of the request's range and puts the rest back. The peer may not
have the rest again if it was at fault or delivered nothing. -/
def complete (q : Queue α) (request : InFlight) (items : List α) (atFault : Bool) : Queue α :=
  let kept := items.take request.range.count
  let n := kept.length
  let q := { q with delivered := q.delivered.insertAll request.range.start kept }
  if n < request.range.count then
    let failedBy :=
      if atFault || n == 0 then request.failedBy.insert request.peer else request.failedBy
    q.requeue ⟨request.range.start + n, request.range.count - n⟩ failedBy
  else q

/-- Puts a lost request back, not for the same peer. -/
def fail? (q : Queue α) (id : RequestId) : Option (InFlight × Queue α) :=
  (q.take? id).map fun (request, q) =>
    (request, q.requeue request.range (request.failedBy.insert request.peer))

def requestsOf (q : Queue α) (peer : PeerId) : List RequestId :=
  (q.inFlight.filter (·.2.peer == peer)).map (·.1)

/-- Loses every request of a peer, and tells how many there were. -/
def failPeer (q : Queue α) (peer : PeerId) : Nat × Queue α :=
  ((q.requestsOf peer).length,
   (q.requestsOf peer).foldl (fun q id => match q.fail? id with | some (_, q) => q | none => q) q)

/-- The items at consecutive positions from `next`, the position behind them and the others. -/
def release (fuel next : Nat) (m : Positioned α) : List α × Nat × Positioned α :=
  match fuel with
  | 0 => ([], next, m)
  | fuel + 1 =>
    match m.get? next with
    | none => ([], next, m)
    | some a =>
      let (items, stop, rest) := release fuel (next + 1) (m.erase next)
      (a :: items, stop, rest)

/-- Takes what can leave in order. -/
def takeReady (q : Queue α) : List α × Queue α :=
  let (items, next, rest) := release q.delivered.length q.nextRelease q.delivered
  (items, { q with nextRelease := next, delivered := rest })

def isDone (q : Queue α) : Bool := q.nextRelease ≥ q.stop

end Queue
end ChainSync.Fetch
