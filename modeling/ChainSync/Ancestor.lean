import ChainSync.Headers.Query
set_option autoImplicit false

namespace ChainSync

open Fetch

/-- The highest block found to be shared, as the local chain has it. -/
structure Ancestor where
  header : Header
  probes : Nat
  deriving DecidableEq, Repr

/-- Which block a search looks at. Between probes of the middle `low` is shared, or genesis and
not looked at, and `high` is not shared. -/
inductive Aim where
  | top
  | middle (low high : Nat) (known : Option Header)
  | genesis
  deriving DecidableEq, Repr

/-- What to do after a probe. -/
inductive Verdict where
  | look (aim : Aim)
  | found (header : Header)
  | mismatch
  deriving DecidableEq, Repr

namespace Aim

/-- The block number probed, given the lower of both heads. -/
def number (height : Nat) : Aim → Nat
  | .top => height
  | .middle low high _ => low + (high - low) / 2
  | .genesis => 0

/-- Narrows the search; once it is done, genesis is looked at if nothing shared is known. -/
def narrow (height low high : Nat) (known : Option Header) : Verdict :=
  if low + 1 < high then .look (.middle low high known)
  else
    match known with
    | some header => .found header
    | none => if height = 0 then .mismatch else .look .genesis

/-- Learns whether the block looked at is shared. -/
def learn (height : Nat) : Aim → Option Header → Verdict
  | .top, some header => .found header
  | .top, none => narrow height 0 height none
  | .middle low high known, some header =>
    narrow height ((middle low high known).number height) high (some header)
  | .middle low high known, none => narrow height low ((middle low high known).number height) known
  | .genesis, some header => .found header
  | .genesis, none => .mismatch

end Aim

/-- A search for the highest block shared with a peer: the lower of both heads comes first, then
the fork point is bisected. -/
structure AncestorSearch where
  peer : SyncPeer
  localHead : Header
  maxForkAncestry : Nat
  probes : Nat
  aim : Aim
  query : HeaderQuery

namespace AncestorSearch

variable {σ : Type}

def height (peer : SyncPeer) (localHead : Header) : Nat :=
  min localHead.height peer.info.head.toNat

/-- Sends a probe. Everything that goes wrong with it is held against the peer. -/
def probe (h : Hub σ) (cancelled : Bool) (peer : SyncPeer) (localHead : Header)
    (maxForkAncestry probes : Nat) (aim : Aim) :
    Hub σ × Except SyncError (AncestorSearch ⊕ Ancestor) :=
  let number := aim.number (height peer localHead)
  match HeaderQuery.ask h peer (.single (.number number)) cancelled with
  | (h, .ok query) =>
    (h, .ok (.inl { peer, localHead, maxForkAncestry, probes := probes + 1, aim, query }))
  | (h, .error .cancelled) => (h, .error .cancelled)
  | (h, .error err) => (h, .error (.ancestorNotFound peer.id err.message))

def begin (h : Hub σ) (cancelled : Bool) (peer : SyncPeer) (localHead : Header)
    (maxForkAncestry : Nat) : Hub σ × Except SyncError (AncestorSearch ⊕ Ancestor) :=
  probe h cancelled peer localHead maxForkAncestry 0 .top

/-- Our copy of the header that answers a probe, if the canonical chain has it. -/
def lookUp (peer : PeerId) (view : ChainView) (number : Nat) (headers : List Header) :
    Except SyncError (Option Header) :=
  match headers with
  | [remote] =>
    if remote.height ≠ number then
      .error (.ancestorNotFound peer s!"asked for header {number}, got {remote.number}")
    else
      match view.headerByHash remote.hash with
      | .error err => .error (.chain err)
      | .ok copy => .ok (copy.filter (·.height == number))
  | headers =>
    .error (.ancestorNotFound peer s!"expected one header at {number}, got {headers.length}")

/-- An ancestor too far down is as bad as none. -/
def checkDepth (s : AncestorSearch) (header : Header) : Except SyncError Ancestor :=
  let depth := s.localHead.height - header.height
  if depth > s.maxForkAncestry then
    .error (.ancestorNotFound s.peer.id
      s!"ancestor {header.number} is {depth} blocks below the local head, limit is {s.maxForkAncestry}")
  else .ok ⟨header, s.probes⟩

def step (s : AncestorSearch) (h : Hub σ) (cancelled : Bool) (view : ChainView) (signal : Signal) :
    Hub σ × Except SyncError (AncestorSearch ⊕ Ancestor) :=
  match s.query.step h cancelled signal with
  | (h, none) => (h, .ok (.inl s))
  | (h, some (.error .cancelled)) => (h, .error .cancelled)
  | (h, some (.error err)) => (h, .error (.ancestorNotFound s.peer.id err.message))
  | (h, some (.ok headers)) =>
    let height := height s.peer s.localHead
    match lookUp s.peer.id view (s.aim.number height) headers with
    | .error err => (h, .error err)
    | .ok shared =>
      match s.aim.learn height shared with
      | .look aim => probe h cancelled s.peer s.localHead s.maxForkAncestry s.probes aim
      | .found header => (h, (s.checkDepth header).map .inr)
      | .mismatch => (h, .error (.ancestorNotFound s.peer.id "genesis mismatch"))

end AncestorSearch
end ChainSync
