import ChainSync.Config
import ChainSync.Events
import ChainSync.Fork.Filter
set_option autoImplicit false

namespace ChainSync

/-- What a peer announced, and the handle under which its connection answers. -/
structure PeerInfo where
  id : PeerId
  version : UInt32
  headHash : Hash
  head : UInt64
  totalDifficulty : U256
  forkId : Option Fork.Id
  connection : Nat
  deriving DecidableEq, Repr

inductive PeerState where
  | idle
  | busy
  | dropped
  deriving DecidableEq, Repr

inductive PeerEvent where
  | registered (peer : PeerId)
  | unregistered (peer : PeerId)
  | dropped (peer : PeerId)
  deriving DecidableEq, Repr

inductive PeerSetError where
  | duplicateId (peer : PeerId)
  | notRegistered (peer : PeerId)
  | blacklisted (peer : PeerId)
  | incompatibleFork (peer : PeerId) (reason : Fork.Mismatch)
  | peerDropped (peer : PeerId)
  | peerBusy (peer : PeerId) (category : Category)
  deriving DecidableEq, Repr

def PeerSetError.message : PeerSetError → String
  | .duplicateId peer => s!"Peer {peer.text} is already registered"
  | .notRegistered peer => s!"Peer {peer.text} is not registered"
  | .blacklisted peer => s!"Peer {peer.text} is blacklisted"
  | .incompatibleFork peer reason =>
    s!"Peer {peer.text} is on an incompatible fork: {reason.message}"
  | .peerDropped peer => s!"Peer {peer.text} was dropped"
  | .peerBusy peer category => s!"Peer {peer.text} has no free {category.shortName} request slot"

/-- A registered peer as the set sees it. -/
structure SyncPeer where
  info : PeerInfo
  state : PeerState
  inFlight : PerCategory Nat
  /-- Items per second. -/
  throughput : PerCategory Float
  rtt : Option Duration
  consecutiveTimeouts : Nat
  deriving Repr

namespace SyncPeer

def id (p : SyncPeer) : PeerId := p.info.id

def live (p : SyncPeer) : Bool := p.state != .dropped

/-- A peer that was not dropped is busy as long as any request of it is under way. -/
def refresh (p : SyncPeer) : SyncPeer :=
  if p.state = .dropped then p
  else { p with state := if p.inFlight.toList.any (· > 0) then .busy else .idle }

/-- More total difficulty ranks higher, then the shorter measured round trip, then the lower id. -/
def rank (a b : SyncPeer) : Ordering :=
  (compare a.info.totalDifficulty.toNat b.info.totalDifficulty.toNat).then <|
    (match a.rtt, b.rtt with
      | some x, some y => compare y.nanos x.nanos
      | some _, none => .gt
      | none, some _ => .lt
      | none, none => .eq).then
    (compare b.id.toNat a.id.toNat)

end SyncPeer

/-- A request that may be under way to a peer. -/
structure Slot where
  peer : PeerId
  category : Category
  deriving DecidableEq, Repr

/-- Doubles in their total order: by sign and then by bits. -/
def floatKey (x : Float) : Int :=
  let bits := x.toBits.toNat
  if bits < 0x8000000000000000 then bits else (0x7fffffffffffffff : Int) - bits

/-- Peers in ascending order of their ids, those never to come back, and the rules of admission. -/
structure PeerSet where
  config : Config
  peers : List SyncPeer := []
  blacklisted : List PeerId := []
  forkFilter : Option Fork.Filter := none
  events : EventBus PeerEvent := .empty
  deriving Repr

namespace PeerSet

/-- Weight of a new measurement in the moving averages. -/
def measurementImpact : Float := 0.1

def ofConfig (config : Config) : PeerSet := { config }

def get? (s : PeerSet) (id : PeerId) : Option SyncPeer := s.peers.find? (·.id == id)

def modify (s : PeerSet) (id : PeerId) (f : SyncPeer → SyncPeer) : PeerSet :=
  { s with peers := s.peers.map fun p => if p.id == id then f p else p }

def publish (s : PeerSet) (event : PeerEvent) : PeerSet :=
  { s with events := (s.events.publish event).2 }

/-- Peers that were not dropped. -/
def livePeers (s : PeerSet) : List SyncPeer := s.peers.filter (·.live)

def size (s : PeerSet) : Nat := s.livePeers.length

def ids (s : PeerSet) : List PeerId := s.peers.map (·.id)

def activeIds (s : PeerSet) : List PeerId := s.livePeers.map (·.id)

def isBlacklisted (s : PeerSet) (id : PeerId) : Bool := s.blacklisted.contains id

/-- Throughput at which a full request takes the target round trip. -/
def initialThroughput (s : PeerSet) (c : Category) : Float :=
  Float.ofNat (s.config.maxItems c) / s.config.targetRtt.secs

def meanThroughput? (s : PeerSet) (c : Category) : Option Float :=
  match s.livePeers.map (·.throughput.get c) with
  | [] => none
  | ts => some (ts.foldl (· + ·) 0.0 / Float.ofNat ts.length)

/-- A new peer starts out as fast as the others are on average. -/
def startThroughput (s : PeerSet) (c : Category) : Float :=
  (s.meanThroughput? c).getD (s.initialThroughput c)

def forkVerdict (s : PeerSet) (forkId : Option Fork.Id) : Except Fork.Mismatch Unit :=
  match s.forkFilter, forkId with
  | some filter, some id => filter.validate id
  | _, _ => .ok ()

def insertPeer (p : SyncPeer) : List SyncPeer → List SyncPeer
  | [] => [p]
  | q :: rest => if p.id.toNat < q.id.toNat then p :: q :: rest else q :: insertPeer p rest

/-- The blacklist is looked at before the ids in use, the fork last. -/
def register (s : PeerSet) (info : PeerInfo) : Except PeerSetError PeerSet :=
  if s.isBlacklisted info.id then .error (.blacklisted info.id)
  else if s.ids.contains info.id then .error (.duplicateId info.id)
  else
    match s.forkVerdict info.forkId with
    | .error reason => .error (.incompatibleFork info.id reason)
    | .ok () =>
      let peer : SyncPeer :=
        { info, state := .idle, inFlight := .const 0, throughput := .ofFn s.startThroughput,
          rtt := none, consecutiveTimeouts := 0 }
      .ok ({ s with peers := insertPeer peer s.peers }.publish (.registered info.id))

def unregister (s : PeerSet) (id : PeerId) : PeerSet :=
  if s.ids.contains id then
    { s with peers := s.peers.filter (·.id != id) }.publish (.unregistered id)
  else s

/-- Dropping an unknown or a dropped peer changes nothing and is not announced. -/
def drop (s : PeerSet) (id : PeerId) : PeerSet :=
  match s.get? id with
  | some p =>
    if p.live then (s.modify id ({ · with state := .dropped })).publish (.dropped id) else s
  | none => s

/-- Drops the peer, if it is there, and never lets it register again. -/
def blacklist (s : PeerSet) (id : PeerId) : PeerSet :=
  { s with blacklisted := s.blacklisted.insert id }.drop id

def updateHead (s : PeerSet) (id : PeerId) (headHash : Hash) (head : UInt64)
    (totalDifficulty : U256) : Except PeerSetError PeerSet :=
  if s.ids.contains id then
    .ok (s.modify id fun p => { p with info := { p.info with headHash, head, totalDifficulty } })
  else .error (.notRegistered id)

/-- The highest ranked peer that was not dropped. -/
def best? (s : PeerSet) : Option SyncPeer :=
  match s.livePeers with
  | [] => none
  | p :: rest => some (rest.foldl (fun a b => if (a.rank b).isGT then a else b) p)

def canServe (s : PeerSet) (c : Category) (p : SyncPeer) : Bool :=
  p.live && p.inFlight.get c < s.config.maxInFlightPerPeer.toNat

/-- Faster first, then by lower id. -/
def faster (c : Category) (a b : SyncPeer) : Bool :=
  ((compare (floatKey (b.throughput.get c)) (floatKey (a.throughput.get c))).then
    (compare a.id.toNat b.id.toNat)).isLE

def forCategory (s : PeerSet) (c : Category) : List SyncPeer :=
  (s.peers.filter (s.canServe c)).mergeSort (faster c)

/-- Takes one of the peer's slots for a request. -/
def beginRequest (s : PeerSet) (id : PeerId) (c : Category) : Except PeerSetError (Slot × PeerSet) :=
  match s.get? id with
  | none => .error (.notRegistered id)
  | some p =>
    if p.state = .dropped then .error (.peerDropped id)
    else if p.inFlight.get c ≥ s.config.maxInFlightPerPeer.toNat then .error (.peerBusy id c)
    else
      .ok (⟨id, c⟩, s.modify id fun p => { p with inFlight := p.inFlight.modify c (· + 1) }.refresh)

/-- Gives a slot back to whichever peer now goes by its id. -/
def release (s : PeerSet) (slot : Slot) : PeerSet :=
  s.modify slot.peer fun p =>
    { p with inFlight := p.inFlight.modify slot.category (· - 1) }.refresh

/-- Folds one measurement into an average. -/
def blend (average measured : Float) : Float :=
  (1.0 - measurementImpact) * average + measurementImpact * measured

def blendRtt (rtt : Option Duration) (elapsed : Duration) : Duration :=
  match rtt with
  | some rtt => rtt.scale (1.0 - measurementImpact) + elapsed.scale measurementImpact
  | none => elapsed

/-- Answers faster than a millisecond count as one. -/
def recordDelivery (s : PeerSet) (id : PeerId) (c : Category) (items : Nat) (elapsed : Duration) :
    PeerSet :=
  let elapsed := elapsed.max (.ofMillis 1)
  let measured := Float.ofNat items / elapsed.secs
  s.modify id fun p =>
    { p with
      throughput := p.throughput.modify c (blend · measured)
      rtt := some (blendRtt p.rtt elapsed)
      consecutiveTimeouts := 0 }

/-- Halves the estimate; too many in a row get the peer dropped, which is then told. -/
def recordTimeout (s : PeerSet) (id : PeerId) (c : Category) : Bool × PeerSet :=
  match s.get? id with
  | none => (false, s)
  | some p =>
    let slower := s.modify id fun p =>
      { p with
        throughput := p.throughput.modify c (· / 2.0)
        consecutiveTimeouts := p.consecutiveTimeouts + 1 }
    if p.consecutiveTimeouts + 1 ≥ s.config.maxPeerTimeouts.toNat ∧ p.live then
      (true, slower.drop id)
    else (false, slower)

/-- How many items to ask for so that the answer takes the target round trip. -/
def capacity (s : PeerSet) (id : PeerId) (c : Category) : Nat :=
  match s.get? id with
  | none => 1
  | some p =>
    max 1 (min (p.throughput.get c * s.config.targetRtt.secs).toUInt64.toNat (s.config.maxItems c))

/-- Three measured round trips, within bounds; the longest wait where none was measured. -/
def requestTimeout (s : PeerSet) (id : PeerId) : Duration :=
  let base :=
    match (s.get? id).bind (·.rtt) with
    | some rtt => rtt.times 3
    | none => s.config.maxRequestTimeout
  base.clamp s.config.minRequestTimeout s.config.maxRequestTimeout

def setForkFilter (s : PeerSet) (filter : Option Fork.Filter) : PeerSet :=
  { s with forkFilter := filter }

def setForkHead (s : PeerSet) (head : UInt64) : PeerSet :=
  { s with forkFilter := s.forkFilter.map (·.setHead head) }

def isForkCompatible (s : PeerSet) (p : SyncPeer) : Bool :=
  match s.forkVerdict p.info.forkId with
  | .ok () => true
  | .error _ => false

end PeerSet
end ChainSync
