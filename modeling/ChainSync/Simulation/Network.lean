import ChainSync.Simulation.Ledger
import ChainSync.Simulation.Peer
set_option autoImplicit false

namespace ChainSync.Simulation

open Fetch

/-- A peer with what it announces when it registers, where that is not its own head. -/
structure Newcomer where
  peer : Peer
  head : Option UInt64 := none
  headHash : Option Hash := none
  totalDifficulty : Option U256 := none
  forkId : Option Fork.Id := none

namespace Newcomer

def protocolVersion : UInt32 := 68

/-- The chain's own last block fills what is not said. -/
def announce (n : Newcomer) (connection : Nat) : PeerInfo :=
  let last := n.peer.chain.last?
  { id := n.peer.id
    version := protocolVersion
    headHash := n.headHash.getD ((last.map (·.hash)).getD Hash.zero)
    head := n.head.getD ((last.map (·.header.number)).getD 0)
    totalDifficulty := n.totalDifficulty.getD n.peer.chain.totalDifficulty
    forkId := n.forkId
    connection }

end Newcomer

/-- All connections ever made, and the answers on their way. -/
structure Network where
  connections : Array Peer := #[]
  /-- By ticket: when a request ends by itself, and how. -/
  replies : List (Nat × Nat × Ending) := []

namespace Network

def connect (n : Network) (p : Peer) : Network := { n with connections := n.connections.push p }

/-- Carries a request to its peer and works out the answer. -/
def carry (n : Network) (c : Call) : Network :=
  match n.connections[c.connection]? with
  | none => n
  | some peer =>
    { connections := n.connections.modify c.connection (·.receive c.started c.category c.request)
      replies :=
        match peer.respond c.category c.request with
        | some (after, ending) => (c.ticket, c.started + after, ending) :: n.replies
        | none => n.replies }

/-- When a request ends and how: an answer that comes no later than the deadline counts. -/
def fate (n : Network) (c : Call) : Nat × Ending :=
  match n.replies.lookup c.ticket with
  | some (ms, ending) => if ms ≤ c.expires then (ms, ending) else (c.expires, .timedOut)
  | none => (c.expires, .timedOut)

def earliest : List (Nat × Signal) → Option (Nat × Signal)
  | [] => none
  | a :: rest =>
    match earliest rest with
    | none => some a
    | some b => if b.1 < a.1 then some b else some a

/-- The first of some requests to end. -/
def nextEnd? (n : Network) (calls : List Call) : Option (Nat × Signal) :=
  earliest (calls.map fun c => ((n.fate c).1, .ended c.ticket (n.fate c).2))

end Network

/-- What happens by script at some instant. -/
inductive Action where
  | register (newcomer : Newcomer)
  | unregister (id : PeerId)
  | drop (id : PeerId)
  | blacklist (id : PeerId)
  | cancel
  | start (mode : SyncMode) (target : Option Nat)

/-- Something that runs on the simulated clock. -/
class Process (π : Type) where
  hub : π → Hub NodeDatabase
  setHub : π → Hub NodeDatabase → π
  calls : π → List Call
  deadline? : π → Option Nat
  signal : π → Signal → π
  cancel : π → π
  start : π → SyncMode → Option Nat → π

/-- A process among its peers, with the actions to come, the earliest first. -/
structure World (π : Type) where
  process : π
  network : Network := {}
  timeline : List (Nat × Action) := []

namespace World

variable {π : Type} [Process π]

def hub (w : World π) : Hub NodeDatabase := Process.hub w.process

def now (w : World π) : Nat := w.hub.now

def mapHub (w : World π) (f : Hub NodeDatabase → Hub NodeDatabase) : World π :=
  { w with process := Process.setHub w.process (f w.hub) }

/-- Sends what waits to be sent. -/
def deliverOutbox (w : World π) : World π :=
  { w.mapHub ({ · with outbox := [] }) with network := w.hub.outbox.foldl Network.carry w.network }

def signal (w : World π) (s : Signal) : World π :=
  { w with process := Process.signal w.process s }.deliverOutbox

/-- Connects a peer, unless the peer set refuses it. -/
def register (w : World π) (n : Newcomer) : World π :=
  match w.hub.peers.register (n.announce w.network.connections.size) with
  | .error _ => w
  | .ok peers => { w.mapHub (·.setPeers peers) with network := w.network.connect n.peer }

def act (w : World π) : Action → World π
  | .register newcomer => w.register newcomer
  | .unregister id => w.mapHub fun h => h.setPeers (h.peers.unregister id)
  | .drop id => w.mapHub fun h => h.setPeers (h.peers.drop id)
  | .blacklist id => w.mapHub fun h => h.setPeers (h.peers.blacklist id)
  | .cancel => { w with process := Process.cancel w.process }
  | .start mode target => { w with process := Process.start w.process mode target }.deliverOutbox

def setNow (w : World π) (ms : Nat) : World π := w.mapHub fun h => { h with now := max h.now ms }

/-- What the process would be told next, if no action comes before. -/
def nextSignal? (w : World π) : Option (Nat × Signal) :=
  Network.earliest <|
    (w.network.nextEnd? (Process.calls w.process)).toList ++
      ((Process.deadline? w.process).map fun ms => (ms, Signal.deadline)).toList

/-- Moves the clock to the next thing that happens, and lets it happen; nothing does past the
limit. -/
def advance? (w : World π) (limit : Option Nat) : Option (World π) :=
  let within (ms : Nat) : Bool := limit.all (ms ≤ ·)
  match w.timeline, w.nextSignal? with
  | (instant, action) :: rest, next =>
    if next.all fun s => instant ≤ s.1 then
      if within instant then
        some (({ w with timeline := rest }.setNow instant).act action |>.signal .woken)
      else none
    else
      match next with
      | some (ms, s) => if within ms then some ((w.setNow ms).signal s) else none
      | none => none
  | [], some (ms, s) => if within ms then some ((w.setNow ms).signal s) else none
  | [], none => none

/-- Lets things happen until the goal is reached, or nothing more happens. -/
def runUntil (goal : π → Bool) : Nat → World π → World π
  | 0, w => w
  | fuel + 1, w =>
    if goal w.process then w
    else
      match w.advance? none with
      | none => w
      | some w => runUntil goal fuel w

/-- Lets things happen up to an instant. -/
def runTo (ms : Nat) : Nat → World π → World π
  | 0, w => w
  | fuel + 1, w =>
    match w.advance? (some ms) with
    | none => w.setNow ms
    | some w => runTo ms fuel w

end World

/-- More than any run that ends needs. -/
def maxEvents : Nat := 10000000

/-- A peer as it stands at some moment. -/
structure PeerReport where
  id : PeerId
  /-- Nothing for a peer that is not registered any more. -/
  registered : Option SyncPeer
  blacklisted : Bool
  log : List LogEntry

/-- The last connection of each peer, by id. -/
def lastConnections (connections : List Peer) : List Peer :=
  let place (acc : List Peer) (p : Peer) : List Peer :=
    (acc.takeWhile fun q => q.id.toNat < p.id.toNat) ++ p ::
      (acc.dropWhile fun q => q.id.toNat ≤ p.id.toNat)
  connections.foldl place []

/-- What can be seen of a run at some moment. -/
structure Report where
  elapsed : Nat
  metrics : Metrics
  peers : List PeerReport

namespace World

variable {π : Type} [Process π]

def report (w : World π) : Report :=
  { elapsed := w.now
    metrics := w.hub.metrics
    peers := (lastConnections w.network.connections.toList).map fun p =>
      { id := p.id
        registered := w.hub.peers.get? p.id
        blacklisted := w.hub.peers.isBlacklisted p.id
        log := p.log } }

/-- Forgets the requests that were reported. -/
def clearLogs (w : World π) : World π :=
  { w with network := { w.network with
      connections := w.network.connections.map fun p => { p with log := [] } } }

end World
end ChainSync.Simulation
