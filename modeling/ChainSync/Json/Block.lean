import ChainSync.Block.Body
import ChainSync.Json.Codec
set_option autoImplicit false

namespace ChainSync

open Json

namespace Header

def fieldNames : List String :=
  ["parentHash", "sha3Uncles", "miner", "stateRoot", "transactionsRoot", "receiptsRoot",
   "logsBloom", "difficulty", "number", "gasLimit", "gasUsed", "timestamp", "extraData", "mixHash",
   "nonce"]

instance : Codec Header where
  encode h := ofRecord fieldNames
    [Codec.encode h.parentHash, Codec.encode h.ommersHash, Codec.encode h.coinbase,
     Codec.encode h.stateRoot, Codec.encode h.transactionsRoot, Codec.encode h.receiptsRoot,
     Codec.encode h.logsBloom, Codec.encode h.difficulty, Codec.encode h.number,
     Codec.encode h.gasLimit, Codec.encode h.gasUsed, Codec.encode h.timestamp,
     encodeBytes h.extraData, Codec.encode h.prevRandao, Codec.encode h.nonce]
  decode? v :=
    match record? fieldNames v with
    | some [some parentHash, some ommersHash, some coinbase, some stateRoot, some transactionsRoot,
        some receiptsRoot, some logsBloom, some difficulty, some number, some gasLimit, some gasUsed,
        some timestamp, some extraData, some prevRandao, some nonce] => do
      return {
        parentHash := ← Codec.decode? parentHash
        ommersHash := ← Codec.decode? ommersHash
        coinbase := ← Codec.decode? coinbase
        stateRoot := ← Codec.decode? stateRoot
        transactionsRoot := ← Codec.decode? transactionsRoot
        receiptsRoot := ← Codec.decode? receiptsRoot
        logsBloom := ← Codec.decode? logsBloom
        difficulty := ← Codec.decode? difficulty
        number := ← Codec.decode? number
        gasLimit := ← Codec.decode? gasLimit
        gasUsed := ← Codec.decode? gasUsed
        timestamp := ← Codec.decode? timestamp
        extraData := ← decodeBytes? extraData
        prevRandao := ← Codec.decode? prevRandao
        nonce := ← Codec.decode? nonce }
    | _ => none

end Header

/-- Transactions are bytes that nothing is known of. -/
def decodeTransactions? : List Value → Option (List Bytes)
  | [] => some []
  | v :: rest =>
    match decodeBytes? v with
    | none => none
    | some b => (decodeTransactions? rest).map (b :: ·)

instance : Codec Body where
  encode b := ofRecord ["transactions", "uncles"]
    [.array (b.transactions.map encodeBytes), Codec.encode b.ommers]
  decode? v :=
    match record? ["transactions", "uncles"] v with
    | some [some (.array transactions), some ommers] => do
      return ⟨← decodeTransactions? transactions, ← Codec.decode? ommers⟩
    | _ => none

instance : Codec Block where
  encode b := ofRecord ["header", "body"] [Codec.encode b.header, Codec.encode b.body]
  decode? v :=
    match record? ["header", "body"] v with
    | some [some header, some body] => do
      return ⟨← Codec.decode? header, ← Codec.decode? body⟩
    | _ => none

instance : Codec Log where
  encode l := ofRecord ["address", "topics", "data"]
    [Codec.encode l.address, Codec.encode l.topics, encodeBytes l.data]
  decode? v :=
    match record? ["address", "topics", "data"] v with
    | some [some address, some topics, some data] => do
      return ⟨← Codec.decode? address, ← Codec.decode? topics, ← decodeBytes? data⟩
    | _ => none

instance : Codec Receipt where
  encode r := ofRecord ["succeeded", "cumulativeGasUsed", "bloom", "logs"]
    [Codec.encode r.succeeded, Codec.encode r.cumulativeGasUsed, Codec.encode r.bloom,
     Codec.encode r.logs]
  decode? v :=
    match record? ["succeeded", "cumulativeGasUsed", "bloom", "logs"] v with
    | some [some succeeded, some gas, some bloom, some logs] => do
      return ⟨← Codec.decode? succeeded, ← Codec.decode? gas, ← Codec.decode? bloom,
        ← Codec.decode? logs⟩
    | _ => none

end ChainSync
