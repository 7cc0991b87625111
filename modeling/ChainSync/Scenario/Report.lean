import ChainSync.Discovery.Source
import ChainSync.Fork.Id
import ChainSync.Json.Codec
import ChainSync.Simulation.Site
set_option autoImplicit false

namespace ChainSync

open Json Simulation

/-- Values as reports show them. -/
class Form (α : Type) where
  form : α → Value

export Form (form)

def object (fs : List (String × Value)) : Value :=
  .object (fs.map fun (name, v) => (Text.ofString name, v))

instance : Form Value := ⟨id⟩

instance : Form Nat := ⟨Json.ofNat⟩

instance : Form UInt64 := ⟨fun n => Json.ofNat n.toNat⟩

instance : Form Bool := ⟨.bool⟩

instance : Form String := ⟨fun s => .string (.ofString s)⟩

instance {α : Type} [Form α] : Form (List α) := ⟨fun xs => .array (xs.map form)⟩

instance : Form Bytes := ⟨fun b => form (Hex.text b)⟩

instance {α : Type} [Form α] : Form (Option α) where
  form
    | some a => form a
    | none => .null

instance : Form Hash := ⟨fun h => form h.text⟩

instance : Form Category := ⟨fun c => form c.shortName⟩

instance : Form Range := ⟨fun r => form [r.start, r.count]⟩

instance : Form Duration := ⟨fun d => form d.nanos⟩

/-- The low eight bytes are enough to tell the peers of a scenario apart. -/
def peerForm (id : PeerId) : Value := form (id.toNat % UInt64.size)

instance : Form PeerState where
  form
    | .idle => form "Idle"
    | .busy => form "Busy"
    | .dropped => form "Dropped"

/-- A rate in millionths, to the nearest whole one. -/
def microForm (rate : Float) : Value := form (rate * 1000000.0).round.toUInt64

instance : Form SyncPeer where
  form p := object [
    ("id", peerForm p.id), ("state", form p.state), ("in_flight", form p.inFlight.toList),
    ("throughput_micro", form (p.throughput.toList.map microForm)), ("rtt_ns", form p.rtt),
    ("timeouts", form p.consecutiveTimeouts), ("head", form p.info.head),
    ("head_hash", form p.info.headHash), ("td", form p.info.totalDifficulty.text)]

instance : Form PeerEvent where
  form
    | .registered id => form [form "registered", peerForm id]
    | .unregistered id => form [form "unregistered", peerForm id]
    | .dropped id => form [form "dropped", peerForm id]

instance : Form Discovery.Candidate where
  form c := form [peerForm c.id, form c.endpoint.text, form (c.forkId.map Fork.Id.text)]

/-- Items taken in and dropped, requests that timed out and that were measured. -/
instance : Form CategoryMetrics where
  form k := form [k.inbound.toNat, k.dropped.toNat, k.timeouts, k.latency.count]

instance : Form SyncProgress where
  form p := object [
    ("mode", form p.mode.name), ("phase", form p.phase.name), ("origin", form p.origin),
    ("current", form p.current), ("target", form p.target), ("pivot", form p.pivot),
    ("headers", form p.headers), ("bodies", form p.bodies), ("receipts", form p.receipts),
    ("state_nodes", form p.stateNodes), ("pending_state_nodes", form p.pendingStateNodes)]

/-- A node by its place in a trie, if it has one. -/
def nodeForm (t : Trie) (hash : Hash) : Value :=
  match t.index? hash with
  | some i => form i
  | none => form hash

def commitsForm (t : Trie) (commits : List (List Hash)) : Value :=
  form (commits.map fun nodes => nodes.map (nodeForm t))

instance : Form LogEntry where
  form e :=
    match e.asked with
    | .headers position limit skip => form [e.ms, position.getD (UInt64.size - 1), limit, skip]
    | .blocks positions => form (form e.ms :: positions.map form)
    | .nodes nodes => form (form e.ms :: nodes.map fun (hash, place) =>
        match place with
        | some i => form i
        | none => form hash)

/-- A peer that is not registered any more has no state. -/
instance : Form PeerReport where
  form p := object [
    ("id", peerForm p.id), ("state", form (p.registered.map (·.state))),
    ("timeouts", form (p.registered.map (·.consecutiveTimeouts))),
    ("rtt_ns", form (p.registered.bind (·.rtt))), ("blacklisted", form p.blacklisted),
    ("requests", form (Category.all.map fun c => p.log.filter (·.category == c)))]

def Simulation.Report.fields (r : Report) : List (String × Value) :=
  [("elapsed_ms", form r.elapsed),
   ("metrics", object (Category.all.map fun c => (c.shortName, form (r.metrics.categories.get c)))),
   ("throttle", form r.metrics.throttle), ("fallbacks", form r.metrics.stateFetchFallbacks),
   ("peers", form r.peers)]

instance : Form Commit where
  form c := .array [form c.kind, form c.first, form c.last, form c.items]

end ChainSync
