import ChainSync.Scenario.Blocks
import ChainSync.Simulation.Network
set_option autoImplicit false

namespace ChainSync

open Json Simulation

/-- Generated tries and chains; the rest of a scenario refers to them by their numbers. -/
structure Stock where
  tries : Array Trie := #[]
  chains : Array BlockChain := #[]

namespace Stock

def trie (s : Stock) (n : Nat) : Trie := s.tries.getD n #[]

def chain (s : Stock) (n : Nat) : BlockChain := s.chains.getD n #[]

/-- An earlier node, the empty trie, or any digest. -/
def readChild? (t : Trie) : Value → Option Hash
  | .number (.natural n) => (t[n]?).map (·.1)
  | .string s => if s.string? = some "empty" then some emptyTrieHash else Readable.read? (.string s)
  | v => Readable.read? v

/-- Adds a node, given as it is or by its parts. -/
def readNode? (t : Trie) : Value → Option Trie
  | .string s => (Readable.read? (.string s)).map t.add
  | v => do
    let children : List Value ← v.get? "children"
    return t.add (encodeNode (← children.mapM (readChild? t)) (← v.get? "payload"))

instance : Readable Trie where
  read? v := do
    if v.has "depth" then return Trie.complete (← v.get? "fanout") (← v.get? "depth") [] #[]
    else
      let nodes : List Value ← v.get? "nodes"
      nodes.foldlM readNode? #[]

instance : Readable Growth where
  read? v := do
    return {
      head := ← v.get? "head"
      variant := ← v.getOr "variant" 0
      emptyEvery := ← v.getOr "empty_every" 5
      dt := ← v.getOr "dt" 10
      step := ← v.getOr "step" 0 }

/-- A chain of its own, or one that leaves an earlier one at some block. -/
def readChain? (s : Stock) (v : Value) : Option BlockChain := do
  let growth : Growth ← Readable.read? v
  if v.has "fork_of" then
    return ((s.chain (← v.get? "fork_of")).forkAt (← v.get? "at")).grow growth
  else
    let number : Option Nat ← v.get? "trie"
    let root := (number.map fun n => (s.trie n).root).getD emptyTrieHash
    let base := BlockChain.genesisHeader (← v.getOr "difficulty" 131072) root
    return (BlockChain.genesis (← base.overlay? (v.field "genesis"))).grow growth

def read? (v : Value) : Option Stock := do
  let tries : List Trie ← v.get? "tries"
  let chains : List Value ← v.get? "chains"
  chains.foldlM (fun s w => (s.readChain? w).map fun c => { s with chains := s.chains.push c })
    { tries := tries.toArray }

/-- One header of a chain or a run of them, perhaps with some fields written over. -/
def headersAt? (s : Stock) (v : Value) : Option (List Header) := do
  let c := s.chain (← v.getOr "c" 0)
  let start : Nat ← if v.has "n" then v.get? "n" else v.getOr "from" 0
  let count : Nat ← if v.has "n" then some 1 else v.getOr "count" 0
  (c.extract start (start + count)).toList.mapM fun b => b.header.overlay? (v.field "set")

def headers? (s : Stock) (vs : List Value) : Option (List Header) :=
  (vs.mapM s.headersAt?).map List.flatten

/-- A block of one of the chains. -/
def blockAt? (s : Stock) (v : Value) : Option FullBlock := do
  (s.chain (← v.getOr "c" 0)).at? (← v.get? "n")

end Stock

/-- A database that holds some nodes of a trie. -/
def readDatabase? (t : Trie) (v : Value) : Option NodeDatabase := do
  let stored : List Nat ← v.get? "has"
  return {
    nodes := stored.filterMap fun i => (t[i]?).map (·.1)
    failHas := ← v.get? "fail_has"
    failCommit := ← v.get? "fail_commit" }

/-- One latency for all categories, or one for each. -/
instance : Readable (PerCategory Nat) where
  read?
    | .array [h, b, r, s] => do
      return ⟨← Readable.read? h, ← Readable.read? b, ← Readable.read? r, ← Readable.read? s⟩
    | v => (Readable.read? v).map PerCategory.const
  absent := some (PerCategory.const 0)

def readMisdeed? (v : Value) : Option Misdeed := do
  let name : String ← v.get? "do"
  match name with
  | "stall" => return .stall
  | "disconnect" => return .disconnect
  | "violation" => return .violation
  | "send_failed" => return .sendFailed
  | "delay" => return .delay (← v.getOr "ms" 0)
  | "empty" => return .empty
  | "short" => return .short (← v.getOr "keep" 0)
  | "extra" => return .extra
  | "reverse" => return .reverse
  | "skip" => return .skip
  | "tamper" => return .tamper (← v.getOr "i" 0)
  | _ => none

instance : Readable Fault where
  read? v := do
    return {
      category := ← v.get? "on"
      start := ← v.getOr "from" 0
      count := ← v.get? "count"
      misdeed := ← readMisdeed? v }

def Stock.newcomer? (s : Stock) (v : Value) : Option Newcomer := do
  let number : Option Nat ← v.get? "trie"
  return {
    peer := {
      id := ← v.get? "id"
      chain := s.chain (← v.getOr "chain" 0)
      trie := number.map s.trie
      latency := ← v.get? "latency"
      jitter := ← v.getOr "jitter" 0
      forgeAbove := ← v.get? "forge_above"
      faults := ← v.get? "faults" }
    head := ← v.get? "head"
    headHash := ← v.get? "head_hash"
    totalDifficulty := ← v.get? "td"
    forkId := ← v.get? "fork_id" }

instance : Readable SyncMode where
  read? v := do
    let name : String ← Readable.read? v
    [SyncMode.full, .light, .snap].find? (·.name == name)

def Stock.action? (s : Stock) (v : Value) : Option Action := do
  let name : String ← v.get? "do"
  match name with
  | "register" => return .register (← s.newcomer? (v.field "peer"))
  | "unregister" => return .unregister (← v.get? "id")
  | "drop" => return .drop (← v.get? "id")
  | "blacklist" => return .blacklist (← v.get? "id")
  | "cancel" => return .cancel
  | "start" => return .start (← v.get? "mode") (← v.get? "target")
  | _ => none

/-- A process among the peers of a scenario, with its timeline in order. -/
def Stock.world? {π : Type} [Process π] (s : Stock) (v : Value) (process : π) :
    Option (World π) := do
  let peers : List Value ← v.get? "peers"
  let timeline : List Value ← v.get? "timeline"
  let actions ← timeline.mapM fun w => do
    let instant : Nat ← w.get? "at"
    return (instant, ← s.action? w)
  let w : World π := { process, timeline := actions.mergeSort fun a b => decide (a.1 ≤ b.1) }
  return (← peers.mapM s.newcomer?).foldl World.register w

instance : Readable Refusal where
  read? v := do
    let name : String ← Readable.read? v
    match name with
    | "invalid" => return .invalid
    | "parent" => return .parent
    | "receipts" => return .receipts
    | "store" => return .store
    | _ => none

/-- The local chain, as the beginning of one of the chains. -/
def Stock.ledger? (s : Stock) (v : Value) : Option Ledger := do
  return {
    Ledger.ofChain (s.chain (← v.getOr "chain" 0)) (← v.getOr "head" 0) with
    reject := ← v.get? "reject"
    failReads := ← v.get? "fail_reads"
    forgetTotals := ← v.get? "forget_td"
    cancelOn := ← v.get? "cancel_on" }

end ChainSync
