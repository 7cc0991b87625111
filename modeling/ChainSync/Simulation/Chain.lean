import ChainSync.Block.Body
set_option autoImplicit false

namespace ChainSync.Simulation

/-- A block with everything a peer can be asked about it. -/
structure FullBlock where
  header : Header
  hash : Hash
  body : Body
  receipts : List Receipt

def FullBlock.ofParts (header : Header) (body : Body) (receipts : List Receipt) : FullBlock :=
  { header, hash := header.hash, body, receipts }

/-- Blocks by position, genesis first. -/
abbrev BlockChain := Array FullBlock

/-- How a generated chain goes on. -/
structure Growth where
  head : Nat
  variant : Nat := 0
  /-- Every so many blocks one is empty; none is for zero. -/
  emptyEvery : Nat := 5
  dt : Nat := 10
  step : Int := 0

namespace BlockChain

def at? (chain : BlockChain) (position : Nat) : Option FullBlock := chain[position]?

def positionOf? (c : BlockChain) (hash : Hash) : Option Nat := c.findIdx? (·.hash == hash)

def ofHash? (c : BlockChain) (hash : Hash) : Option FullBlock := c.find? (·.hash == hash)

def last? (c : BlockChain) : Option FullBlock := c.back?

/-- The sum of the difficulties up to a position. -/
def totalDifficultyAt (c : BlockChain) (position : Nat) : U256 :=
  U256.ofNat ((c.toList.take (position + 1)).foldl (fun n b => n + b.header.difficulty.toNat) 0)

def totalDifficulty (c : BlockChain) : U256 := c.totalDifficultyAt c.size

def gasPerTransaction : Nat := 21000

/-- The block that follows a parent. -/
def child (g : Growth) (parent : Header) (parentHash : Hash) : FullBlock :=
  let number := parent.number.toNat + 1
  let isEmpty := g.emptyEvery ≠ 0 ∧ number % g.emptyEvery = 0
  let transactions := if isEmpty then [] else [Bytes.ofString s!"tx-{g.variant}-{number}"]
  let receipts : List Receipt :=
    if isEmpty then [] else [⟨true, UInt64.ofNat gasPerTransaction, 0, []⟩]
  let header : Header :=
    { parentHash
      number := UInt64.ofNat number
      timestamp := UInt64.ofNat (parent.timestamp.toNat + g.dt)
      difficulty := U256.ofNat (parent.difficulty.toNat + g.step).toNat
      gasLimit := parent.gasLimit
      stateRoot := parent.stateRoot
      gasUsed := UInt64.ofNat (gasPerTransaction * receipts.length)
      transactionsRoot := transactionsRoot transactions
      receiptsRoot := receiptsRoot receipts
      extraData := [UInt8.ofNat g.variant] }
  .ofParts header ⟨transactions, []⟩ receipts

/-- Adds `count` blocks. -/
def extend (g : Growth) : Nat → BlockChain → BlockChain
  | 0, c => c
  | count + 1, c =>
    match c.last? with
    | none => c
    | some parent => extend g count (c.push (child g parent.header parent.hash))

/-- A chain up to the position of its head. -/
def grow (g : Growth) (c : BlockChain) : BlockChain := extend g (g.head + 1 - c.size) c

def genesis (header : Header) : BlockChain := #[.ofParts header .empty []]

def genesisHeader (difficulty : Nat) (stateRoot : Hash) : Header :=
  { difficulty := U256.ofNat difficulty, gasLimit := 8000000, stateRoot }

/-- The blocks up to a position, as the start of another chain. -/
def forkAt (c : BlockChain) (position : Nat) : BlockChain := c.extract 0 (position + 1)

end BlockChain
end ChainSync.Simulation
