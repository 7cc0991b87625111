import ChainSync.Fetch.Queue
import ChainSync.Fetch.Workload
set_option autoImplicit false

namespace ChainSync.Fetch

/-- What blocks carry besides their headers, asked for by block hash. -/
class BlockData (δ : Type) where
  category : Category
  /-- Whether the header commits to the empty value, which needs no request. -/
  committedEmpty : Header → Bool
  empty : δ
  validate : Header → δ → Except CommitmentError Unit
  request : List Hash → Request
  ofPayload : Payload → List δ
  count : SyncProgress → Nat → SyncProgress

instance : BlockData Body where
  category := .bodies
  committedEmpty := Header.hasEmptyBody
  empty := Body.empty
  validate := Header.checkBody
  request := .bodies
  ofPayload := Payload.bodiesOf
  count p n := { p with bodies := p.bodies + n }

instance : BlockData (List Receipt) where
  category := .receipts
  committedEmpty := Header.hasEmptyReceipts
  empty := []
  validate := Header.checkReceipts
  request := .receipts
  ofPayload := Payload.receiptsOf
  count p n := { p with receipts := p.receipts + n }

/-- Data for a run of headers. The queue's positions index only the blocks that have something to
ask for, so that ranges stay whole where empty blocks lie between. -/
structure BlockFetch (δ : Type) where
  headers : List Header
  /-- Which headers the queue's positions stand for. -/
  wanted : List Nat
  queue : Queue (δ × PeerId)
  items : List (Option δ)
  deliveredBy : List (Option PeerId)
  released : Nat

namespace BlockFetch

variable {δ : Type} [BlockData δ]

/-- The indices, from `i` on, of headers that commit to something. -/
def wantedFrom (δ : Type) [BlockData δ] (i : Nat) : List Header → List Nat
  | [] => []
  | h :: rest =>
    if BlockData.committedEmpty δ h then wantedFrom δ (i + 1) rest else i :: wantedFrom δ (i + 1) rest

def start (session : Nat) (headers : List Header) (size : Nat) : BlockFetch δ :=
  let wanted := wantedFrom δ 0 headers
  { headers
    wanted
    queue := .ofCount session 0 wanted.length size true
    items := headers.map fun h => if BlockData.committedEmpty δ h then some BlockData.empty else none
    deliveredBy := headers.map fun _ => none
    released := 0 }

/-- Empty blocks count as fetched from the start. -/
def begin (session : Nat) (headers : List Header) (size : Nat) (progress : SyncProgress) :
    BlockFetch δ × SyncProgress :=
  let f : BlockFetch δ := start session headers size
  (f, BlockData.count δ progress (headers.length - f.wanted.length))

omit [BlockData δ] in
def headerAt? (f : BlockFetch δ) (position : Nat) : Option Header :=
  match f.wanted[position]? with
  | some index => f.headers[index]?
  | none => none

omit [BlockData δ] in
/-- The block numbers that a range of positions spans. -/
def blockRange (f : BlockFetch δ) (range : Range) : Range :=
  match f.headerAt? range.start, f.headerAt? (range.stop - 1) with
  | some first, some last => ⟨first.height, last.height - first.height + 1⟩
  | _, _ => range

omit [BlockData δ] in
def isDone (f : BlockFetch δ) : Bool := f.queue.isDone

def reserve (f : BlockFetch δ) (peer : PeerId) (capacity : Nat) (live : List PeerId) :
    Option (Assignment × BlockFetch δ) :=
  (f.queue.reserve peer capacity live).map fun (id, range, queue) =>
    (⟨id, f.blockRange range,
      BlockData.request δ (range.positions.filterMap fun p => (f.headerAt? p).map Header.hash)⟩,
     { f with queue })

/-- The items up to the first that does not fit the header at its position, and what is wrong with
that one. -/
def accept (f : BlockFetch δ) (range : Range) (position : Nat) : List δ → List δ × Option String
  | [] => ([], none)
  | item :: rest =>
    match if position < range.stop then f.headerAt? position else none with
    | none => ([], some s!"more items than the {range.count} requested")
    | some header =>
      match BlockData.validate header item with
      | .error err => ([], some s!"block {header.number}: {err.message}")
      | .ok () =>
        let (kept, fault) := f.accept range (position + 1) rest
        (item :: kept, fault)

omit [BlockData δ] in
/-- Puts a released item where its header stands. -/
def place (f : BlockFetch δ) (item : δ × PeerId) : BlockFetch δ :=
  match f.wanted[f.released]? with
  | some index =>
    { f with
      items := f.items.set index (some item.1)
      deliveredBy := f.deliveredBy.set index (some item.2)
      released := f.released + 1 }
  | none => f

def deliver (f : BlockFetch δ) (id : RequestId) (peer : PeerId) (response : List δ) :
    BlockFetch δ × Delivery :=
  match f.queue.take? id with
  | none => (f, .stale response.length)
  | some (request, queue) =>
    let (kept, fault) := f.accept request.range request.range.start response
    let (ready, queue) :=
      (queue.complete request (kept.map fun item => (item, peer)) fault.isSome).takeReady
    (ready.foldl place { f with queue },
      match fault with
      | some reason => .rejected kept.length (response.length - kept.length) reason
      | none => .accepted kept.length)

omit [BlockData δ] in
def fail (f : BlockFetch δ) (id : RequestId) : Bool × BlockFetch δ :=
  match f.queue.fail? id with
  | some (_, queue) => (true, { f with queue })
  | none => (false, f)

omit [BlockData δ] in
def failPeer (f : BlockFetch δ) (peer : PeerId) : Nat × BlockFetch δ :=
  let (n, queue) := f.queue.failPeer peer
  (n, { f with queue })

omit [BlockData δ] in
/-- One item for each header, once everything is there. -/
def output (f : BlockFetch δ) : List δ := f.items.filterMap id

instance : Workload (BlockFetch δ) where
  category _ := BlockData.category δ
  isDone := isDone
  reserve := reserve
  fail := fail
  failPeer := failPeer

instance (σ : Type) : Receiver σ (BlockFetch δ) where
  deliver f board id peer payload :=
    let (g, delivery) := f.deliver id peer (BlockData.ofPayload payload)
    (g, { board with progress := BlockData.count δ board.progress (g.released - f.released) },
      .ok delivery)

end BlockFetch
end ChainSync.Fetch
