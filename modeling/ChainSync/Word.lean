import ChainSync.Bytes
import ChainSync.Hex
set_option autoImplicit false

namespace ChainSync

/-- A 32 byte digest, read as one big-endian number. -/
abbrev Hash := BitVec 256

namespace Hash

def zero : Hash := 0#256

def ofBytes (b : Bytes) : Hash := BitVec.ofNat 256 (Bytes.toNat b)

def bytes (h : Hash) : Bytes := Bytes.ofNat 32 h.toNat

def text (h : Hash) : String := Hex.text h.bytes

@[simp] theorem length_bytes (h : Hash) : h.bytes.length = 32 := Bytes.length_ofNat _ _

@[simp] theorem ofBytes_bytes (h : Hash) : ofBytes h.bytes = h := by
  apply BitVec.eq_of_toNat_eq
  have small : h.toNat < Nat.pow 256 32 := h.isLt
  rw [ofBytes, bytes, Bytes.toNat_ofNat, BitVec.toNat_ofNat, Nat.mod_eq_of_lt small,
    Nat.mod_eq_of_lt h.isLt]

theorem bytes_inj {a b : Hash} (h : a.bytes = b.bytes) : a = b := by
  rw [← ofBytes_bytes a, h, ofBytes_bytes]

end Hash

/-- Peers are named by the digest of their public key. -/
abbrev PeerId := Hash

abbrev Address := BitVec 160

def Address.bytes (a : Address) : Bytes := Bytes.ofNat 20 a.toNat

def Address.ofBytes (b : Bytes) : Address := BitVec.ofNat 160 (Bytes.toNat b)

abbrev Bloom := BitVec 2048

def Bloom.bytes (b : Bloom) : Bytes := Bytes.ofNat 256 b.toNat

def Bloom.ofBytes (b : Bytes) : Bloom := BitVec.ofNat 2048 (Bytes.toNat b)

/-- A number of 256 bits, a type of its own since it is not written like a digest. -/
structure U256 where
  bits : BitVec 256
  deriving DecidableEq, Repr

namespace U256

def ofNat (n : Nat) : U256 := ⟨BitVec.ofNat 256 n⟩

def toNat (x : U256) : Nat := x.bits.toNat

def zero : U256 := ofNat 0

def leadingZeros (x : U256) : Nat :=
  if x.toNat = 0 then 256 else 255 - x.toNat.log2

def text (x : U256) : String := toString x.toNat

theorem toNat_inj {x y : U256} (h : x.toNat = y.toNat) : x = y := by
  cases x; cases y; congr; exact BitVec.eq_of_toNat_eq h

theorem toNat_lt (x : U256) : x.toNat < Nat.pow 2 256 := x.bits.isLt

end U256

def UInt64.bytes (n : UInt64) : Bytes := Bytes.ofNat 8 n.toNat

end ChainSync
