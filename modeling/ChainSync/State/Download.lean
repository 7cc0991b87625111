import ChainSync.Fetch.Workload
set_option autoImplicit false

namespace ChainSync

open Fetch

/-- A retrieved node, held back until everything it refers to is there. -/
structure WaitingNode where
  data : Bytes
  missingChildren : Nat
  deriving DecidableEq, Repr

/-- The download of a state trie by node hash, breadth first from its root. A node goes to the
database only behind its children, so the database never holds an incomplete subtrie. -/
structure StateDownload where
  root : Hash
  session : Nat
  nextAttempt : Nat
  /-- Hashes to ask for, in order. -/
  queue : List Hash
  /-- Hashes asked for or to ask for, with the peers that failed to serve them. -/
  scheduled : List (Hash × List PeerId)
  inFlight : List (RequestId × PeerId × List Hash)
  waiting : List (Hash × WaitingNode)
  /-- The nodes that wait for a child, by the child. -/
  parents : List (Hash × List Hash)
  /-- Complete nodes that are not in the database yet, oldest first. -/
  membatch : List (Hash × Bytes)
  /-- Hashes that are as good as stored, since the last commit that succeeded. -/
  membatchHashes : List Hash
  commitBatch : Nat
  committed : Nat

namespace StateDownload

variable {σ : Type} [NodeStore σ]

def pending (d : StateDownload) : Nat := d.scheduled.length + d.waiting.length

def isDone (d : StateDownload) : Bool := d.pending == 0 && d.membatch.isEmpty

/-- A hash is scheduled once. -/
def schedule (d : StateDownload) (hash : Hash) : StateDownload :=
  if (d.scheduled.lookup hash).isSome then d
  else { d with scheduled := d.scheduled ++ [(hash, [])], queue := d.queue ++ [hash] }

def start (session : Nat) (root : Hash) (store : σ) (commitBatch : Nat) :
    Except StoreError StateDownload :=
  let d : StateDownload :=
    { root, session, nextAttempt := 0, queue := [], scheduled := [], inFlight := [], waiting := [],
      parents := [], membatch := [], membatchHashes := [], commitBatch := max commitBatch 1, committed := 0 }
  if root = emptyTrieHash then .ok d
  else
    match NodeStore.hasNode store root with
    | .error err => .error err
    | .ok true => .ok d
    | .ok false => .ok (d.schedule root)

/-- Complete nodes count as known before they reach the database. -/
def isKnown (d : StateDownload) (store : σ) (hash : Hash) : Except StoreError Bool :=
  if d.membatchHashes.contains hash then .ok true else NodeStore.hasNode store hash

def addParent (d : StateDownload) (child parent : Hash) : StateDownload :=
  { d with parents :=
      if (d.parents.lookup child).isSome then
        d.parents.map fun (c, ps) => if c = child then (c, ps ++ [parent]) else (c, ps)
      else d.parents ++ [(child, [parent])] }

/-- Makes a node wait for each of its children that is not known yet; counts them. -/
def link (d : StateDownload) (store : σ) (hash : Hash) :
    List Hash → StateDownload × Except StoreError Nat
  | [] => (d, .ok 0)
  | child :: rest =>
    if child = emptyTrieHash then d.link store hash rest
    else
      match d.isKnown store child with
      | .error err => (d, .error err)
      | .ok true => d.link store hash rest
      | .ok false =>
        let d := d.addParent child hash
        let d := if (d.waiting.lookup child).isSome then d else d.schedule child
        match d.link store hash rest with
        | (d, .error err) => (d, .error err)
        | (d, .ok n) => (d, .ok (n + 1))

/-- Tells one waiting node that a child is there; a node with nothing left to wait for is ready. -/
def settleParent (d : StateDownload) (parent : Hash) : StateDownload × List (Hash × Bytes) :=
  match d.waiting.lookup parent with
  | none => (d, [])
  | some node =>
    if node.missingChildren = 1 then
      ({ d with waiting := d.waiting.filter (·.1 != parent) }, [(parent, node.data)])
    else
      ({ d with waiting := d.waiting.map fun (h, w) =>
          if h = parent then (h, { w with missingChildren := w.missingChildren - 1 }) else (h, w) },
       [])

def settleParents (d : StateDownload) : List Hash → StateDownload × List (Hash × Bytes)
  | [] => (d, [])
  | parent :: rest =>
    let (d, ready) := d.settleParent parent
    let (d, more) := d.settleParents rest
    (d, ready ++ more)

/-- Moves ready nodes to the batch, the last one first, and whatever becomes ready by that. -/
def cascade (d : StateDownload) : Nat → List (Hash × Bytes) → StateDownload
  | 0, _ => d
  | _, [] => d
  | fuel + 1, ready =>
    match ready.getLast? with
    | none => d
    | some (hash, data) =>
      let d := { d with
        membatch := d.membatch ++ [(hash, data)]
        membatchHashes := d.membatchHashes.insert hash
        committed := d.committed + 1 }
      let parents := (d.parents.lookup hash).getD []
      let d := { d with parents := d.parents.filter (·.1 != hash) }
      let (d, more) := d.settleParents parents
      d.cascade fuel (ready.dropLast ++ more)

def flush (d : StateDownload) (store : σ) : StateDownload × σ × Except StoreError Unit :=
  if d.membatch.isEmpty then (d, store, .ok ())
  else
    match NodeStore.commitNodes store d.membatch with
    | (store, .error err) => ({ d with membatch := [] }, store, .error err)
    | (store, .ok ()) => ({ d with membatch := [], membatchHashes := [] }, store, .ok ())

/-- Every ready node was waiting before, so their count bounds the cascade. -/
def commit (d : StateDownload) (store : σ) (hash : Hash) (data : Bytes) :
    StateDownload × σ × Except StoreError Unit :=
  let d := d.cascade (d.waiting.length + 1) [(hash, data)]
  if d.membatch.length ≥ d.commitBatch ∨ d.pending = 0 then d.flush store else (d, store, .ok ())

/-- Takes in a node that was asked for. -/
def process (d : StateDownload) (store : σ) (hash : Hash) (data : Bytes) :
    StateDownload × σ × Except StoreError Unit :=
  match NodeStore.childHashes store hash data with
  | .error err => (d, store, .error err)
  | .ok children =>
    match d.link store hash children with
    | (d, .error err) => (d, store, .error err)
    | (d, .ok 0) => d.commit store hash data
    | (d, .ok (n + 1)) =>
      ({ d with waiting := d.waiting.filter (·.1 != hash) ++ [(hash, ⟨data, n + 1⟩)] }, store, .ok ())

/-- Puts a hash that is still scheduled at the end of the queue. -/
def requeue (d : StateDownload) (failed : Option PeerId) (hash : Hash) : StateDownload :=
  if (d.scheduled.lookup hash).isSome then
    { d with
      scheduled :=
        match failed with
        | none => d.scheduled
        | some peer =>
          d.scheduled.map fun (h, failedBy) =>
            if h = hash then (h, failedBy.insert peer) else (h, failedBy)
      queue := d.queue ++ [hash] }
  else d

/-- Whether the peer may be asked for a scheduled hash. -/
def eligible (failedBy : List PeerId) (peer : PeerId) (live : List PeerId) : Bool :=
  !failedBy.contains peer || live.all failedBy.contains

/-- Up to `room` hashes for the peer, and the others, both in order. Hashes that are no longer
scheduled fall out on the way. -/
def pick (d : StateDownload) (peer : PeerId) (live : List PeerId) :
    Nat → List Hash → List Hash × List Hash
  | 0, queue => ([], queue)
  | _, [] => ([], [])
  | room + 1, hash :: rest =>
    match d.scheduled.lookup hash with
    | none => d.pick peer live (room + 1) rest
    | some failedBy =>
      if eligible failedBy peer live then
        let (taken, left) := d.pick peer live room rest
        (hash :: taken, left)
      else
        let (taken, left) := d.pick peer live (room + 1) rest
        (taken, hash :: left)

def reserve (d : StateDownload) (peer : PeerId) (capacity : Nat) (live : List PeerId) :
    Option (Assignment × StateDownload) :=
  let (taken, left) := d.pick peer live (max capacity 1) d.queue
  if taken.isEmpty then none
  else
    let id : RequestId := ⟨d.session, d.nextAttempt⟩
    some (⟨id, ⟨d.committed, taken.length⟩, .nodes taken⟩,
      { d with
        nextAttempt := d.nextAttempt + 1
        queue := left
        scheduled := d.scheduled.map fun (h, failedBy) =>
          if taken.contains h ∧ failedBy.contains peer then (h, []) else (h, failedBy)
        inFlight := d.inFlight ++ [(id, peer, taken)] })

/-- Sorts the nodes of an answer: those asked for are taken in, once each, the others counted. -/
def takeIn (d : StateDownload) (store : σ) (outstanding : List Hash) (accepted unrequested : Nat) :
    List Bytes → StateDownload × σ × Except StoreError (List Hash × Nat × Nat)
  | [] => (d, store, .ok (outstanding, accepted, unrequested))
  | data :: rest =>
    let hash := keccak data
    if outstanding.contains hash then
      let d := { d with scheduled := d.scheduled.filter (·.1 != hash) }
      match d.process store hash data with
      | (d, store, .error err) => (d, store, .error err)
      | (d, store, .ok ()) =>
        d.takeIn store (outstanding.filter (· != hash)) (accepted + 1) unrequested rest
    else d.takeIn store outstanding accepted (unrequested + 1) rest

def deliver (d : StateDownload) (store : σ) (id : RequestId) (peer : PeerId) (nodes : List Bytes) :
    StateDownload × σ × Except SyncError Delivery :=
  match d.inFlight.lookup id with
  | none => (d, store, .ok (.stale nodes.length))
  | some (_, requested) =>
    let d := { d with inFlight := d.inFlight.filter (·.1 != id) }
    match d.takeIn store requested 0 0 nodes with
    | (d, store, .error err) => (d, store, .error (.stateStore err))
    | (d, store, .ok (outstanding, accepted, unrequested)) =>
      let failed := if unrequested > 0 ∨ accepted = 0 then some peer else none
      let d := (requested.filter outstanding.contains).foldl (requeue · failed) d
      (d, store, .ok (
        if unrequested > 0 then
          .rejected accepted unrequested s!"{unrequested} nodes do not match any requested hash"
        else .accepted accepted))

def fail (d : StateDownload) (id : RequestId) : Bool × StateDownload :=
  match d.inFlight.lookup id with
  | none => (false, d)
  | some (peer, hashes) =>
    (true, hashes.foldl (requeue · (some peer)) { d with inFlight := d.inFlight.filter (·.1 != id) })

def requestsOf (d : StateDownload) (peer : PeerId) : List RequestId :=
  (d.inFlight.filter (·.2.1 == peer)).map (·.1)

def failPeer (d : StateDownload) (peer : PeerId) : Nat × StateDownload :=
  ((d.requestsOf peer).length, (d.requestsOf peer).foldl (fun d id => (d.fail id).2) d)

def report (d : StateDownload) (progress : SyncProgress) : SyncProgress :=
  { progress with stateNodes := d.committed, pendingStateNodes := d.pending }

instance : Workload StateDownload where
  category _ := .stateNodes
  isDone := isDone
  reserve := reserve
  fail := fail
  failPeer := failPeer

/-- A stale answer leaves the report as it is, as does one that ends the download. -/
instance : Receiver σ StateDownload where
  deliver d board id peer payload :=
    let (e, store, result) := d.deliver board.store id peer payload.nodesOf
    let progress :=
      match result with
      | .ok (.stale _) | .error _ => board.progress
      | .ok _ => e.report board.progress
    (e, ⟨progress, store⟩, result)

end StateDownload
end ChainSync
