import ChainSync.Block.Body
set_option autoImplicit false

namespace ChainSync

/-- Why the local chain refused something. -/
inductive ChainError where
  | invalidBlock (reason : String)
  | parentNotFound (parent : Hash)
  | missingReceipts (number : UInt64)
  | store (reason : String)
  deriving DecidableEq, Repr

def ChainError.message : ChainError → String
  | .invalidBlock reason => s!"Invalid block: {reason}"
  | .parentNotFound parent => s!"Parent block {parent.text} not found"
  | .missingReceipts number => s!"Missing receipts for block {number}"
  | .store reason => s!"DB error: {reason}"

/-- A batch was refused at one of its blocks. -/
structure InsertError where
  index : Nat
  error : ChainError
  deriving DecidableEq, Repr

def InsertError.message (e : InsertError) : String :=
  s!"Insertion failed at index {e.index}: {e.error.message}"

/-- What a session reads from the local chain at one moment. -/
structure ChainView where
  currentHeader : Except ChainError Header
  headerByHash : Hash → Except ChainError (Option Header)
  totalDifficulty : Hash → Except ChainError (Option U256)

/-- A validated batch on its way into the local chain. -/
inductive Batch where
  | headers (headers : List Header)
  | blocks (blocks : List Block)
  | receipts (blocks : List Block) (receipts : List (List Receipt))
  deriving DecidableEq, Repr

def Batch.headersOf : Batch → List Header
  | .headers hs => hs
  | .blocks bs => bs.map (·.header)
  | .receipts bs _ => bs.map (·.header)

inductive StoreError where
  | malformedNode (node : Hash)
  | store (reason : String)
  deriving DecidableEq, Repr

def StoreError.message : StoreError → String
  | .malformedNode node => s!"Malformed trie node {node.text}"
  | .store reason => s!"DB error: {reason}"

/-- A database of trie nodes. A commit that fails may have stored the first of its nodes. -/
class NodeStore (σ : Type) where
  hasNode : σ → Hash → Except StoreError Bool
  /-- The nodes that a node refers to, read off its data. -/
  childHashes : σ → Hash → Bytes → Except StoreError (List Hash)
  commitNodes : σ → List (Hash × Bytes) → σ × Except StoreError Unit

end ChainSync
