import ChainSync.Fetch.Workload
import ChainSync.Metrics
set_option autoImplicit false

namespace ChainSync.Fetch

/-- A request that was sent and has not come to an end. Instants are in milliseconds. -/
structure Call where
  ticket : Nat
  peer : PeerId
  connection : Nat
  category : Category
  request : Request
  started : Nat
  /-- When the answer comes too late. -/
  expires : Nat
  deriving DecidableEq, Repr

def Call.slot (c : Call) : Slot := ⟨c.peer, c.category⟩

/-- How a request ended. -/
inductive Ending where
  | answered (payload : Payload)
  | failed (error : ConnectionError)
  | timedOut
  deriving DecidableEq, Repr

/-- What all fetches share: the peers, the counters, their results, the clock, and the requests
that wait to be sent or to be called off. -/
structure Hub (σ : Type) where
  peers : PeerSet
  metrics : Metrics := .zero
  board : Board σ
  heads : EventBus ChainHead := .empty
  now : Nat := 0
  nextTicket : Nat := 0
  outbox : List Call := []
  /-- Requests nobody waits for; their slots are free once the fetches come to rest. -/
  abandoned : List Call := []

namespace Hub

variable {σ : Type}

def setPeers (h : Hub σ) (peers : PeerSet) : Hub σ := { h with peers }

def setProgress (h : Hub σ) (f : SyncProgress → SyncProgress) : Hub σ :=
  { h with board := { h.board with progress := f h.board.progress } }

def setPhase (h : Hub σ) (phase : SyncPhase) : Hub σ := h.setProgress ({ · with phase })

def elapsed (h : Hub σ) (c : Call) : Duration := .ofMillis (h.now - c.started)

/-- Sends a request for which a slot has been taken. -/
def send (h : Hub σ) (peer : SyncPeer) (category : Category) (request : Request) : Call × Hub σ :=
  let call : Call :=
    { ticket := h.nextTicket, peer := peer.id, connection := peer.info.connection, category, request
      started := h.now, expires := h.now + (h.peers.requestTimeout peer.id).ceilMillis }
  (call, { h with nextTicket := h.nextTicket + 1, outbox := h.outbox ++ [call] })

/-- Frees the slot of a request that ended. -/
def finish (h : Hub σ) (c : Call) : Hub σ := h.setPeers (h.peers.release c.slot)

/-- Calls requests off. Those still to be sent never are. -/
def abandon (h : Hub σ) (calls : List Call) : Hub σ :=
  { h with
    outbox := h.outbox.filter fun c => !calls.any (·.ticket == c.ticket)
    abandoned := h.abandoned ++ calls }

/-- Frees the slots of requests that were called off. -/
def rest (h : Hub σ) : Hub σ :=
  { h with
    peers := h.abandoned.foldl (fun peers c => peers.release c.slot) h.peers
    abandoned := [] }

end Hub

/-- What a fetch or a session is told. -/
inductive Signal where
  | ended (ticket : Nat) (ending : Ending)
  /-- Something else has changed: a peer, or the wish to go on. -/
  | woken
  | deadline
  deriving DecidableEq, Repr

end ChainSync.Fetch
