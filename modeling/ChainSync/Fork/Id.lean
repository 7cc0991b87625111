import ChainSync.Crc32
import ChainSync.Rlp.Encoding
set_option autoImplicit false

namespace ChainSync.Fork

/-- Names the forks a node has passed by a checksum, and the next one it knows of, zero for none. -/
structure Id where
  checksum : UInt32
  next : UInt64
  deriving DecidableEq, Repr

namespace Id

def checksumBytes (id : Id) : Bytes := Bytes.ofNat 4 id.checksum.toNat

def text (id : Id) : String := Hex.text id.checksumBytes ++ "/" ++ toString id.next

def encode (id : Id) : Bytes := Rlp.record [Rlp.bytes id.checksumBytes, Rlp.u64 id.next]

/-- Folds the forks into the checksum up to the first one above the head. -/
def walk (head : UInt64) : Crc32.Hasher → List UInt64 → Id
  | h, [] => ⟨h.finish, 0⟩
  | h, f :: rest =>
    if f > head then ⟨h.finish, f⟩ else walk head (h.update (Bytes.ofNat 8 f.toNat)) rest

def ofHead (genesis : Hash) (forks : List UInt64) (head : UInt64) : Id :=
  walk head (Crc32.Hasher.empty.update genesis.bytes) forks

end Id
end ChainSync.Fork
