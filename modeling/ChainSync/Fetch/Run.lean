import ChainSync.Fetch.Call
set_option autoImplicit false

namespace ChainSync.Fetch

/-- A request of a run, with the piece of work it asks for. -/
structure Errand where
  call : Call
  id : RequestId
  range : Range
  deriving DecidableEq, Repr

/-- A fetch under way: it hands work to idle peers, takes in the answers, and gives the work of
peers that fail or leave to others. -/
structure Run (τ : Type) where
  task : τ
  /-- Its subscription to the events of the peer set. -/
  subscription : Nat
  errands : List Errand
  /-- Requests that have not been reported yet. -/
  inFlight : Nat
  /-- Since when nothing could be asked of anyone. -/
  waitingSince : Option Nat

namespace Run

variable {σ τ : Type}

def calls (r : Run τ) : List Call := r.errands.map (·.call)

variable [Workload τ]

/-- Offers work to one peer. A slot that is not needed is given back at once. -/
def offer (r : Run τ) (h : Hub σ) (live : List PeerId) (peer : SyncPeer) : Run τ × Hub σ :=
  let category := Workload.category r.task
  match h.peers.beginRequest peer.id category with
  | .error _ => (r, h)
  | .ok (slot, peers) =>
    let h := h.setPeers peers
    match Workload.reserve r.task peer.id (h.peers.capacity peer.id category) live with
    | none => (r, h.setPeers (h.peers.release slot))
    | some (assignment, task) =>
      let (call, h) := h.send peer category assignment.request
      ({ r with
          task
          errands := r.errands ++ [⟨call, assignment.id, assignment.range⟩]
          inFlight := r.inFlight + 1 }, h)

/-- Offers work to every idle peer, the fastest first. -/
def assign (r : Run τ) (h : Hub σ) : Run τ × Hub σ :=
  let live := h.peers.activeIds
  (h.peers.forCategory (Workload.category r.task)).foldl (fun (r, h) peer => r.offer h live peer) (r, h)

omit [Workload τ] in
/-- A stretch of waiting begins when no request is left; each one counts once. -/
def awaitPeers (r : Run τ) (h : Hub σ) : Run τ × Hub σ :=
  if r.inFlight = 0 then
    match r.waitingSince with
    | some _ => (r, h)
    | none => ({ r with waitingSince := some h.now }, { h with metrics := h.metrics.addThrottle })
  else ({ r with waitingSince := none }, h)

/-- A peer that left loses its work; one that came ends the waiting. -/
def noteEvent (r : Run τ) : PeerEvent → Run τ
  | .unregistered peer | .dropped peer => { r with task := (Workload.failPeer r.task peer).2 }
  | .registered _ => { r with waitingSince := none }

omit [Workload τ] in
/-- Leaves the run: its subscription ends and what is still under way is called off. -/
def leave (r : Run τ) (h : Hub σ) : Hub σ :=
  { h with peers := { h.peers with events := h.peers.events.unsubscribe r.subscription } }.abandon
    r.calls

/-- Ends if it can, else hands out work and sees whether there is anything to wait for. -/
def turn (r : Run τ) (h : Hub σ) (cancelled : Bool) :
    Run τ × Hub σ × Option (Except SyncError Unit) :=
  if cancelled then (r, r.leave h, some (.error .cancelled))
  else if Workload.isDone r.task then (r, r.leave h, some (.ok ()))
  else
    let (r, h) := r.assign h
    let (r, h) := r.awaitPeers h
    (r, h, none)

/-- Takes in the events of the peer set one by one, with a turn after each. The fuel is the
number of events. -/
def catchUp (cancelled : Bool) :
    Nat → Run τ → Hub σ → Run τ × Hub σ × Option (Except SyncError Unit)
  | 0, r, h => (r, h, none)
  | fuel + 1, r, h =>
    match h.peers.events.tryRecv r.subscription with
    | (none, _) => (r, h, none)
    | (some event, events) =>
      match (r.noteEvent event).turn { h with peers := { h.peers with events } } cancelled with
      | (r, h, some result) => (r, h, some result)
      | (r, h, none) => catchUp cancelled fuel r h

omit [Workload τ] in
def backlog (r : Run τ) (h : Hub σ) : Nat := (h.peers.events.backlog r.subscription).length

/-- A turn, and one more for every event that waits. -/
def proceed (r : Run τ) (h : Hub σ) (cancelled : Bool) :
    Run τ × Hub σ × Option (Except SyncError Unit) :=
  match r.turn h cancelled with
  | (r, h, some result) => (r, h, some result)
  | (r, h, none) => catchUp cancelled (r.backlog h) r h

/-- Without an event there is no turn: idle peers get no second piece of work unasked. -/
def wake (r : Run τ) (h : Hub σ) (cancelled : Bool) :
    Run τ × Hub σ × Option (Except SyncError Unit) :=
  if cancelled then (r, r.leave h, some (.error .cancelled)) else catchUp cancelled (r.backlog h) r h

def start (task : τ) (h : Hub σ) (cancelled : Bool) :
    Run τ × Hub σ × Option (Except SyncError Unit) :=
  let (subscription, events) := h.peers.events.subscribe
  let r : Run τ := { task, subscription, errands := [], inFlight := 0, waitingSince := none }
  r.proceed { h with peers := { h.peers with events } } cancelled

omit [Workload τ] in
/-- When the run gives up waiting for peers, if it ever does. -/
def deadline? (r : Run τ) (h : Hub σ) : Option Nat :=
  match r.waitingSince, h.peers.config.peerWaitTimeout with
  | some since, some wait => if r.inFlight = 0 then some (since + wait.ceilMillis) else none
  | _, _ => none

variable [Receiver σ τ]

/-- Counts an answer and what it says about its sender. Nothing at all counts like a timeout, so
that peers without the data go sooner or later. -/
def judge (h : Hub σ) (e : Errand) (delivery : Delivery) : Hub σ :=
  let category := e.call.category
  let peer := e.call.peer
  match delivery with
  | .accepted items =>
    let h := { h with metrics := (h.metrics.addInbound category items).addLatency category (h.elapsed e.call) }
    if items = 0 then h.setPeers (h.peers.recordTimeout peer category).2
    else h.setPeers (h.peers.recordDelivery peer category items (h.elapsed e.call))
  | .stale items => { h with metrics := h.metrics.addDropped category items }
  | .disputed items _ => { h with metrics := h.metrics.addDropped category items }
  | .rejected accepted dropped _ =>
    { h with
      metrics := (h.metrics.addInbound category accepted).addDropped category dropped
      peers := h.peers.drop peer }

/-- Reports the end of one request to the task. -/
def conclude (r : Run τ) (h : Hub σ) (e : Errand) : Ending → Run τ × Hub σ × Except SyncError Unit
  | .answered payload =>
    let (task, board, result) := Receiver.deliver r.task h.board e.id e.call.peer payload
    let r := { r with task }
    let h := { h with board }
    match result with
    | .error err => (r, h, .error err)
    | .ok delivery => (r, judge h e delivery, .ok ())
  | .timedOut =>
    let r := { r with task := (Workload.fail r.task e.id).2 }
    let h := { h with metrics := h.metrics.addTimeout e.call.category }
    (r, h.setPeers (h.peers.recordTimeout e.call.peer e.call.category).2, .ok ())
  | .failed _ =>
    let r := { r with task := (Workload.fail r.task e.id).2 }
    (r, h.setPeers (h.peers.drop e.call.peer), .ok ())

/-- Takes one signal in. The slot of a request is free before its end is reported. -/
def step (r : Run τ) (h : Hub σ) (cancelled : Bool) :
    Signal → Run τ × Hub σ × Option (Except SyncError Unit)
  | .woken => r.wake h cancelled
  | .deadline => (r, r.leave h, some (.error .noUsablePeers))
  | .ended ticket ending =>
    match r.errands.find? (·.call.ticket == ticket) with
    | none => (r, h, none)
    | some e =>
      let r := { r with
        errands := r.errands.filter (·.call.ticket != ticket), inFlight := r.inFlight - 1 }
      match r.conclude (h.finish e.call) e ending with
      | (r, h, .error err) => (r, r.leave h, some (.error err))
      | (r, h, .ok ()) => r.proceed h cancelled

end Run
end ChainSync.Fetch
