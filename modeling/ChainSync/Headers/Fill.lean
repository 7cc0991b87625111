import ChainSync.Consensus
import ChainSync.Fetch.Queue
import ChainSync.Fetch.Workload
set_option autoImplicit false

namespace ChainSync

open Fetch

/-- What is wrong with a run of headers that should fill a gap. -/
inductive FillFault where
  | tooMany (requested : Nat)
  | misnumbered (number : UInt64) (expected : Nat)
  | invalid (error : ConsensusError)
  /-- The first header names another parent than the opening anchor. -/
  | unlinked (number : Nat)
  /-- The last header is not the closing anchor. -/
  | unmatched (number : Nat)
  deriving DecidableEq, Repr

namespace FillFault

def reason : FillFault → String
  | .tooMany requested => s!"more headers than the {requested} requested"
  | .misnumbered number expected => s!"header {number} where {expected} was expected"
  | .invalid error => error.message
  | .unlinked number => s!"header {number} does not link to its anchor"
  | .unmatched number => s!"header {number} does not match the skeleton"

/-- Faults that may be the skeleton's rather than the sender's. -/
def againstSkeleton : FillFault → Bool
  | .unlinked _ | .unmatched _ => true
  | _ => false

end FillFault

/-- The first fault of headers that should run from `expected` up to the end of the range. -/
def firstFault (engine : Engine) (range : Range) (expected : Nat) (previous : Header) :
    List Header → Option FillFault
  | [] => none
  | h :: rest =>
    if expected ≥ range.stop then some (.tooMany range.count)
    else if h.height ≠ expected then some (.misnumbered h.number expected)
    else if expected = range.start ∧ h.parentHash ≠ previous.hash then some (.unlinked expected)
    else
      match engine.verifyHeader h previous with
      | .error err => some (.invalid err)
      | .ok () => firstFault engine range (expected + 1) h rest

/-- Fills the gaps of a skeleton. Each gap lies between two anchors, the segment's origin and the
skeleton's headers, and is filled by one peer at a time, wholly or not at all. -/
structure HeaderFill where
  queue : Queue Header
  engine : Engine
  anchors : Positioned Header
  master : PeerId
  /-- Peers that disagreed with the skeleton anywhere. -/
  mismatches : List PeerId
  mismatchLimit : Nat
  released : List Header

namespace HeaderFill

/-- One range up to each skeleton header, from behind the one before it. -/
def gaps (previous : Nat) : List Header → List Range
  | [] => []
  | h :: rest => ⟨previous + 1, h.height - previous⟩ :: gaps h.height rest

def start (session : Nat) (origin : Header) (skeleton : List Header) (master : PeerId)
    (engine : Engine) (mismatchLimit : Nat) : HeaderFill :=
  { queue := .ofRanges session (gaps origin.height skeleton) false
    engine
    anchors := skeleton.foldl (fun m h => m.insert h.height h) [(origin.height, origin)]
    master
    mismatches := []
    mismatchLimit
    released := [] }

def isDone (f : HeaderFill) : Bool := f.queue.isDone

def reserve (f : HeaderFill) (peer : PeerId) (capacity : Nat) (live : List PeerId) :
    Option (Assignment × HeaderFill) :=
  (f.queue.reserve peer capacity live).map fun (id, range, queue) =>
    (⟨id, range, .headers (.range range.start range.count)⟩, { f with queue })

/-- The fault that an answer shows, if any; only a whole answer is held against the closing anchor. -/
def fault? (f : HeaderFill) (range : Range) (parent : Header) (headers : List Header) :
    Option FillFault :=
  match firstFault f.engine range range.start parent headers with
  | some fault => some fault
  | none =>
    if headers.length = range.count ∧
        headers.getLast?.map Header.hash ≠ (f.anchors.get? (range.stop - 1)).map Header.hash then
      some (.unmatched (range.stop - 1))
    else none

/-- Counts a peer among those that disagree. Once there are enough of them, or when the master
contradicts itself, the skeleton was a lie. -/
def dispute (f : HeaderFill) (peer : PeerId) (range : Range) (reason : String) :
    HeaderFill × Option SyncError :=
  let f := { f with mismatches := f.mismatches.insert peer }
  if peer = f.master ∨ f.mismatches.length ≥ f.mismatchLimit then
    (f, some (.peerFault f.master .headers range
      s!"skeleton not matched by {f.mismatches.length} peers: {reason}"))
  else (f, none)

/-- Releases what is complete from the front. -/
def collect (f : HeaderFill) : HeaderFill :=
  let (ready, queue) := f.queue.takeReady
  { f with queue, released := f.released ++ ready }

def deliver (f : HeaderFill) (id : RequestId) (peer : PeerId) (headers : List Header) :
    HeaderFill × Except SyncError Delivery :=
  match f.queue.take? id with
  | none => (f, .ok (.stale headers.length))
  | some (request, queue) =>
    let f := { f with queue }
    let range := request.range
    match f.anchors.get? (range.start - 1) with
    | none => (f, .error (.validationFailure .headers range none "fill batch has no anchor"))
    | some parent =>
      match f.fault? range parent headers with
      | some fault =>
        if fault.againstSkeleton then
          match f.dispute peer range fault.reason with
          | (f, some error) => (f, .error error)
          | (f, none) =>
            ({ f with queue := f.queue.complete request [] true },
              .ok (.disputed headers.length fault.reason))
        else
          ({ f with queue := f.queue.complete request [] true },
            .ok (.rejected 0 headers.length fault.reason))
      | none =>
        if headers.length ≠ range.count then
          ({ f with queue := f.queue.complete request [] false }, .ok (.accepted 0))
        else
          ({ f with queue := f.queue.complete request headers false }.collect,
            .ok (.accepted headers.length))

def fail (f : HeaderFill) (id : RequestId) : Bool × HeaderFill :=
  match f.queue.fail? id with
  | some (_, queue) => (true, { f with queue })
  | none => (false, f)

def failPeer (f : HeaderFill) (peer : PeerId) : Nat × HeaderFill :=
  let (n, queue) := f.queue.failPeer peer
  (n, { f with queue })

instance : Workload HeaderFill where
  category _ := .headers
  isDone := isDone
  reserve := reserve
  fail := fail
  failPeer := failPeer

instance (σ : Type) : Receiver σ HeaderFill where
  deliver f board id peer payload :=
    let (g, result) := f.deliver id peer payload.headersOf
    let progress := { board.progress with
      headers := board.progress.headers + (g.released.length - f.released.length) }
    (g, { board with progress }, result)

end HeaderFill
end ChainSync
