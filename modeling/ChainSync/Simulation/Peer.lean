import ChainSync.Fetch.Call
import ChainSync.Simulation.Chain
import ChainSync.Simulation.Trie
set_option autoImplicit false

namespace ChainSync.Simulation

open Fetch

/-- What a peer may do wrong. -/
inductive Misdeed where
  | stall
  | disconnect
  | violation
  | sendFailed
  | delay (ms : Nat)
  | empty
  | short (keep : Nat)
  | extra
  | reverse
  | skip
  | tamper (index : Nat)
  deriving DecidableEq, Repr

/-- A misdeed at some of the requests of a category, counted from zero. -/
structure Fault where
  category : Category
  start : Nat := 0
  count : Option Nat := none
  misdeed : Misdeed
  deriving DecidableEq, Repr

def Fault.applies (f : Fault) (category : Category) (n : Nat) : Bool :=
  f.category == category && f.start ≤ n && (f.count.all fun count => n < f.start + count)

/-- What a peer was asked, as seen from its own chain and trie. -/
inductive Asked where
  /-- A request by the hash of an unknown block has no position. -/
  | headers (position : Option Nat) (limit skip : Nat)
  | blocks (positions : List (Option Nat))
  | nodes (nodes : List (Hash × Option Nat))

structure LogEntry where
  ms : Nat
  category : Category
  asked : Asked

/-- A peer that answers from a generated chain and trie. -/
structure Peer where
  id : PeerId
  chain : BlockChain
  trie : Option Trie := none
  latency : PerCategory Nat
  jitter : Nat := 0
  forgeAbove : Option Nat := none
  faults : List Fault := []
  /-- How many requests of each category it got. -/
  counts : PerCategory Nat := .const 0
  /-- Requests since last looked at. -/
  log : List LogEntry := []

namespace Peer

def asked (p : Peer) : Request → Asked
  | .headers r =>
    match r.start with
    | .number start => .headers (some start) r.limit r.skip
    | .hash hash =>
      match p.chain.positionOf? hash with
      | some position => .headers (some position) r.limit r.skip
      | none => .headers none 0 r.skip
  | .bodies blocks => .blocks (blocks.map p.chain.positionOf?)
  | .receipts blocks => .blocks (blocks.map p.chain.positionOf?)
  | .nodes nodes => .nodes (nodes.map fun hash => (hash, p.trie.bind (·.index? hash)))

/-- The values at the front, up to the first that is missing. -/
def known {α : Type} : List (Option α) → List α
  | some a :: rest => a :: known rest
  | _ => []

def forge (p : Peer) (skip : Nat) (header : Header) : Header :=
  match p.forgeAbove with
  | some above =>
    if skip > 0 ∧ header.height > above then { header with extraData := Bytes.ofString "forged" }
    else header
  | none => header

/-- What an honest peer would answer, but for forged headers. -/
def answer (p : Peer) : Request → Payload
  | .headers r =>
    let blocks :=
      match r.start with
      | .number _ => known (r.numbers.map p.chain.at?)
      | .hash hash => (p.chain.ofHash? hash).toList
    .headers (blocks.map fun b => p.forge r.skip b.header)
  | .bodies blocks => .bodies ((known (blocks.map p.chain.ofHash?)).map (·.body))
  | .receipts blocks => .receipts ((known (blocks.map p.chain.ofHash?)).map (·.receipts))
  | .nodes nodes => .nodes (nodes.filterMap fun hash => p.trie.bind (·.data? hash))

/-- Changes the order or the number of items, whatever they are. -/
def rearrange {α : Type} : Misdeed → List α → List α
  | .empty, _ => []
  | .short keep, items => items.take keep
  | .extra, items => items ++ items.getLast?.toList
  | .reverse, items => items.reverse
  | .skip, items => items.drop 1
  | _, items => items

def tampered : Bytes := Bytes.ofString "tampered"

def spoil (index : Nat) : Payload → Payload
  | .headers hs => .headers (hs.modify index fun h => { h with extraData := tampered })
  | .bodies bs =>
    .bodies (bs.modify index fun b => { b with transactions := b.transactions ++ [tampered] })
  | .receipts rs => .receipts (rs.modify index fun r => r ++ [⟨false, 1, 0, []⟩])
  | .nodes ns => .nodes (ns.modify index fun _ => tampered)

def corrupt (m : Misdeed) (payload : Payload) : Payload :=
  match m with
  | .tamper index => spoil index payload
  | m =>
    match payload with
    | .headers hs => .headers (rearrange m hs)
    | .bodies bs => .bodies (rearrange m bs)
    | .receipts rs => .receipts (rearrange m rs)
    | .nodes ns => .nodes (rearrange m ns)

/-- How the request ends, and after how many milliseconds; never, for a peer that stalls. -/
def respond (p : Peer) (category : Category) (request : Request) : Option (Nat × Ending) :=
  let n := p.counts.get category
  let after := p.latency.get category + p.jitter * n
  match p.faults.find? (·.applies category n) with
  | none => some (after, .answered (p.answer request))
  | some fault =>
    match fault.misdeed with
    | .stall => none
    | .disconnect => some (after, .failed .disconnected)
    | .violation => some (after, .failed (.protocolViolation "bad frame"))
    | .sendFailed => some (after, .failed (.sendFailed "closed"))
    | .delay ms => some (after + ms, .answered (p.answer request))
    | misdeed => some (after, .answered (corrupt misdeed (p.answer request)))

/-- Notes a request and counts it. -/
def receive (p : Peer) (ms : Nat) (category : Category) (request : Request) : Peer :=
  { p with
    counts := p.counts.modify category (· + 1)
    log := p.log ++ [⟨ms, category, p.asked request⟩] }

end Peer
end ChainSync.Simulation
