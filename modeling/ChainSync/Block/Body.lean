import ChainSync.Block.Header
import ChainSync.Block.Receipt
set_option autoImplicit false

namespace ChainSync

/-- Transactions stay in their encoded form. -/
structure Body where
  transactions : List Bytes
  ommers : List Header
  deriving DecidableEq, Repr

structure Block where
  header : Header
  body : Body
  deriving DecidableEq, Repr

def transactionsRoot (transactions : List Bytes) : Hash :=
  keccak (Rlp.list (transactions.map Rlp.bytes))

def ommersHash (ommers : List Header) : Hash :=
  keccak (Rlp.list (ommers.map Header.encode))

def receiptsRoot (receipts : List Receipt) : Hash :=
  keccak (Rlp.list (receipts.map Receipt.encode))

namespace Body

def empty : Body := ⟨[], []⟩

def transactionsRoot (b : Body) : Hash := ChainSync.transactionsRoot b.transactions

def ommersHash (b : Body) : Hash := ChainSync.ommersHash b.ommers

def encode (b : Body) : Bytes :=
  Rlp.record [Rlp.list (b.transactions.map Rlp.bytes), Rlp.list (b.ommers.map Header.encode)]

end Body

def Block.hash (b : Block) : Hash := b.header.hash

/-- A commitment of a header that its data does not meet. -/
inductive CommitmentError where
  | transactionsRoot (expected computed : Hash)
  | ommersHash (expected computed : Hash)
  | receiptsRoot (expected computed : Hash)
  deriving DecidableEq, Repr

def CommitmentError.message : CommitmentError → String
  | .transactionsRoot expected computed => mismatch "Transactions root" expected computed
  | .ommersHash expected computed => mismatch "Ommers hash" expected computed
  | .receiptsRoot expected computed => mismatch "Receipts root" expected computed
where
  mismatch (what : String) (expected computed : Hash) : String :=
    what ++ " does not match the one in the header, expected " ++ expected.text ++ ", got "
      ++ computed.text

namespace Header

/-- The transactions are checked first. -/
def checkBody (h : Header) (b : Body) : Except CommitmentError Unit :=
  if b.transactionsRoot ≠ h.transactionsRoot then
    .error (.transactionsRoot h.transactionsRoot b.transactionsRoot)
  else if b.ommersHash ≠ h.ommersHash then
    .error (.ommersHash h.ommersHash b.ommersHash)
  else .ok ()

def checkReceipts (h : Header) (receipts : List Receipt) : Except CommitmentError Unit :=
  if ChainSync.receiptsRoot receipts ≠ h.receiptsRoot then
    .error (.receiptsRoot h.receiptsRoot (ChainSync.receiptsRoot receipts))
  else .ok ()

end Header
end ChainSync
