import ChainSync.Keccak
import ChainSync.Rlp.Encoding
set_option autoImplicit false

namespace ChainSync

/-- The digest of an empty list, which commits a block to having none of something. -/
def emptyListHash : Hash := 0x1dcc4de8dec75d7aab85b567b6ccd41ad312451b948a7413f0a142fd40d49347#256

/-- The digest of the empty byte string's encoding, the root of a trie without nodes. -/
def emptyTrieHash : Hash := 0x56e81f171bcc55a6ff8345e692c0f86e5b48e01b996cadc001622fb5e363b421#256

structure Header where
  parentHash : Hash := Hash.zero
  ommersHash : Hash := emptyListHash
  coinbase : Address := 0
  stateRoot : Hash := Hash.zero
  transactionsRoot : Hash := emptyListHash
  receiptsRoot : Hash := emptyListHash
  logsBloom : Bloom := 0
  difficulty : U256 := U256.zero
  number : UInt64 := 0
  gasLimit : UInt64 := 0
  gasUsed : UInt64 := 0
  timestamp : UInt64 := 0
  extraData : Bytes := []
  prevRandao : Hash := Hash.zero
  nonce : UInt64 := 0
  deriving DecidableEq, Repr

namespace Header

/-- The nonce is eight bytes even when it starts with zeros. -/
def encode (h : Header) : Bytes :=
  Rlp.record [
    Rlp.bytes h.parentHash.bytes, Rlp.bytes h.ommersHash.bytes, Rlp.bytes (Address.bytes h.coinbase),
    Rlp.bytes h.stateRoot.bytes, Rlp.bytes h.transactionsRoot.bytes, Rlp.bytes h.receiptsRoot.bytes,
    Rlp.bytes (Bloom.bytes h.logsBloom), Rlp.u256 h.difficulty, Rlp.u64 h.number, Rlp.u64 h.gasLimit,
    Rlp.u64 h.gasUsed, Rlp.u64 h.timestamp, Rlp.bytes h.extraData, Rlp.bytes h.prevRandao.bytes,
    Rlp.bytes (Bytes.ofNat 8 h.nonce.toNat)]

def hash (h : Header) : Hash := keccak h.encode

/-- The block number as a position on the chain. -/
def height (h : Header) : Nat := h.number.toNat

/-- Neither transactions nor ommers: the body is known without asking for it. -/
def hasEmptyBody (h : Header) : Bool :=
  h.transactionsRoot == emptyListHash && h.ommersHash == emptyListHash

def hasEmptyReceipts (h : Header) : Bool := h.receiptsRoot == emptyListHash

end Header
end ChainSync
