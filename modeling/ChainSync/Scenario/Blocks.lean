import ChainSync.Block.Body
import ChainSync.Discovery.Source
import ChainSync.Fork.Filter
import ChainSync.Json.Sync
import ChainSync.Peer.Set
import ChainSync.Scenario.Reading
set_option autoImplicit false

namespace ChainSync

open Json

/-- The header with some of its fields written over. -/
def Header.overlay? (base : Header) (v : Value) : Option Header := do
  return {
    parentHash := ← v.getOr "parent_hash" base.parentHash
    ommersHash := ← v.getOr "ommers_hash" base.ommersHash
    coinbase := ← v.getOr "coinbase" base.coinbase
    stateRoot := ← v.getOr "state_root" base.stateRoot
    transactionsRoot := ← v.getOr "transactions_root" base.transactionsRoot
    receiptsRoot := ← v.getOr "receipts_root" base.receiptsRoot
    logsBloom := ← v.getOr "logs_bloom" base.logsBloom
    difficulty := ← v.getOr "difficulty" base.difficulty
    number := ← v.getOr "number" base.number
    gasLimit := ← v.getOr "gas_limit" base.gasLimit
    gasUsed := ← v.getOr "gas_used" base.gasUsed
    timestamp := ← v.getOr "timestamp" base.timestamp
    extraData := ← v.getOr "extra_data" base.extraData
    prevRandao := ← v.getOr "prev_randao" base.prevRandao
    nonce := ← v.getOr "nonce" base.nonce }

instance : Readable Header where
  read? := Header.overlay? {}
  absent := some {}

instance : Readable Body where
  read? v := do return ⟨← v.get? "transactions", ← v.get? "ommers"⟩
  absent := some Body.empty

instance : Readable Log where
  read? v := do return ⟨← v.get? "address", ← v.get? "topics", ← v.get? "data"⟩

instance : Readable Receipt where
  read? v := do
    return ⟨← v.get? "succeeded", ← v.getOr "gas" 0, ← v.get? "bloom", ← v.get? "logs"⟩

instance : Readable Fork.Id where
  read? v := do
    let (sum, next) : Bytes × UInt64 ← Readable.read? v
    return ⟨UInt32.ofNat (Bytes.toNat sum), next⟩

/-- The rules of a chain as of some head. -/
instance : Readable Fork.Filter where
  read? v := do
    return .ofSchedule (← v.get? "genesis") (← v.get? "forks") (← v.getOr "head" 0)

instance : Readable Config where
  read? := Codec.decode?
  absent := some {}

instance : Readable Engine where
  read? := Codec.decode?
  absent := some Engine.default

/-- A peer that says nothing is at genesis with no work behind it. -/
instance : Readable PeerInfo where
  read? v := do
    return {
      id := ← v.get? "id"
      version := 68
      headHash := ← v.getOr "head_hash" Hash.zero
      head := ← v.getOr "head" 0
      totalDifficulty := ← v.getOr "td" U256.zero
      forkId := ← v.get? "fork_id"
      connection := 0 }

instance : Readable Discovery.Candidate where
  read? v := do
    let address : String ← v.get? "addr"
    return ⟨← v.get? "id", ← Discovery.Endpoint.read? address, ← v.get? "fork_id"⟩

end ChainSync
