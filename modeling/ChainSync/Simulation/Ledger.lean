import ChainSync.Chain
import ChainSync.Simulation.Chain
set_option autoImplicit false

namespace ChainSync.Simulation

/-- How the local chain is made to refuse a block. -/
inductive Refusal where
  | invalid
  | parent
  | receipts
  | store
  deriving DecidableEq, Repr

def Refusal.error (number : UInt64) : Refusal → ChainError
  | .invalid => .invalidBlock s!"block {number} rejected"
  | .parent => .parentNotFound (BitVec.ofNat 256 number.toNat)
  | .receipts => .missingReceipts number
  | .store => .store "disk full"

/-- A batch that was taken as a whole. -/
structure Commit where
  kind : String
  first : UInt64
  last : UInt64
  items : Nat
  deriving DecidableEq, Repr

/-- The local chain. -/
structure Ledger where
  /-- Headers by position, with their hashes. -/
  canonical : Array (Header × Hash)
  /-- Of every block ever inserted. -/
  totals : List (Hash × U256)
  reject : List (UInt64 × Refusal) := []
  failReads : Bool := false
  forgetTotals : Bool := false
  /-- The block during whose insertion the session is cancelled. -/
  cancelOn : Option UInt64 := none
  commits : List Commit := []

namespace Ledger

def ofChain (c : BlockChain) (head : Nat) : Ledger :=
  let blocks := c.forkAt head
  { canonical := blocks.map fun b => (b.header, b.hash)
    totals := ((List.range blocks.size).zip blocks.toList).map fun (i, b) =>
      (b.hash, blocks.totalDifficultyAt i) }

def head? (l : Ledger) : Option (Header × Hash) := l.canonical.back?

def view (l : Ledger) : ChainView where
  currentHeader :=
    if l.failReads then .error (.store "read failed")
    else
      match l.head? with
      | some (header, _) => .ok header
      | none => .error (.store "no head")
  headerByHash hash :=
    if l.failReads then .error (.store "read failed")
    else .ok ((l.canonical.find? (·.2 == hash)).map (·.1))
  totalDifficulty hash :=
    if l.failReads then .error (.store "read failed")
    else if l.forgetTotals then .ok none
    else .ok (l.totals.lookup hash)

/-- Puts a header on the canonical chain behind its parent, cutting off what stood there. -/
def append (l : Ledger) (header : Header) : Except ChainError Ledger :=
  let kept := l.canonical.extract 0 header.height
  match kept.back? with
  | none => .error (.parentNotFound header.parentHash)
  | some (_, parentHash) =>
    if parentHash ≠ header.parentHash then .error (.parentNotFound header.parentHash)
    else
      match l.totals.lookup parentHash with
      | none => .error (.parentNotFound header.parentHash)
      | some total =>
        let hash := header.hash
        .ok { l with
          canonical := kept.push (header, hash)
          totals := (hash, U256.ofNat (total.toNat + header.difficulty.toNat)) :: l.totals }

/-- Inserts headers from index `i` on, up to the first that is refused; tells whether the session
was cancelled on the way. -/
def insertHeaders (l : Ledger) (i : Nat) : List Header → Ledger × Bool × Except InsertError Unit
  | [] => (l, false, .ok ())
  | header :: rest =>
    let cancels := l.cancelOn == some header.number
    match l.reject.lookup header.number with
    | some refusal => (l, cancels, .error ⟨i, refusal.error header.number⟩)
    | none =>
      match l.append header with
      | .error err =>
        ({ l with canonical := l.canonical.extract 0 header.height }, cancels, .error ⟨i, err⟩)
      | .ok l =>
        let (l, later, result) := l.insertHeaders (i + 1) rest
        (l, cancels || later, result)

def commitOf (batch : Batch) : Commit :=
  let headers := batch.headersOf
  let first := (headers.head?.map (·.number)).getD 0
  let last := (headers.getLast?.map (·.number)).getD 0
  match batch with
  | .headers _ => ⟨"headers", first, last, 0⟩
  | .blocks blocks =>
    ⟨"blocks", first, last, blocks.foldl (fun n b => n + b.body.transactions.length) 0⟩
  | .receipts _ receipts => ⟨"receipts", first, last, receipts.foldl (fun n rs => n + rs.length) 0⟩

/-- Inserts a batch; one that was taken wholly is recorded. -/
def insert (l : Ledger) (batch : Batch) : Ledger × Bool × Except InsertError Unit :=
  match l.insertHeaders 0 batch.headersOf with
  | (l, cancelled, .ok ()) =>
    ({ l with commits := l.commits ++ [commitOf batch] }, cancelled, .ok ())
  | (l, cancelled, .error err) => (l, cancelled, .error err)

end Ledger
end ChainSync.Simulation
