import ChainSync.Bytes
set_option autoImplicit false

namespace ChainSync.Crc32

/-- One bit of the division by the reflected polynomial. -/
def shift (c : UInt32) : UInt32 :=
  if c &&& 1 = 1 then (c >>> 1) ^^^ 0xEDB88320 else c >>> 1

/-- A running checksum, before the final complement. -/
structure Hasher where
  state : UInt32
  deriving DecidableEq, Repr

def Hasher.empty : Hasher := ⟨0xFFFFFFFF⟩

def Hasher.byte (h : Hasher) (x : UInt8) : Hasher :=
  ⟨shift (shift (shift (shift (shift (shift (shift (shift (h.state ^^^ x.toUInt32))))))))⟩

def Hasher.update (h : Hasher) (b : Bytes) : Hasher := b.foldl Hasher.byte h

def Hasher.finish (h : Hasher) : UInt32 := ~~~h.state

@[simp] theorem Hasher.update_append (h : Hasher) (a b : Bytes) :
    h.update (a ++ b) = (h.update a).update b := List.foldl_append ..

def checksum (b : Bytes) : UInt32 := (Hasher.empty.update b).finish

end ChainSync.Crc32
