import ChainSync.Rlp.Encoding
set_option autoImplicit false

namespace ChainSync

/-- A record written while a transaction runs. -/
structure Log where
  address : Address
  topics : List Hash
  data : Bytes
  deriving DecidableEq, Repr

def Log.encode (l : Log) : Bytes :=
  Rlp.record [Rlp.bytes (Address.bytes l.address),
    Rlp.list (l.topics.map fun t => Rlp.bytes (Hash.bytes t)), Rlp.bytes l.data]

/-- The outcome of one transaction; gas is counted over all earlier ones of the block too. -/
structure Receipt where
  succeeded : Bool
  cumulativeGasUsed : UInt64
  bloom : Bloom
  logs : List Log
  deriving DecidableEq, Repr

def Receipt.encode (r : Receipt) : Bytes :=
  Rlp.record [Rlp.bool r.succeeded, Rlp.u64 r.cumulativeGasUsed, Rlp.bytes (Bloom.bytes r.bloom),
    Rlp.list (r.logs.map Log.encode)]

end ChainSync
