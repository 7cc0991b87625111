import ChainSync.Word
set_option autoImplicit false

namespace ChainSync.Rlp

/-- Head of a byte string that is not its own encoding. -/
def bytesHead (length : Nat) : Bytes :=
  if length < 56 then [UInt8.ofNat (0x80 + length)]
  else UInt8.ofNat (0xb7 + (Bytes.minimal length).length) :: Bytes.minimal length

/-- Head of a list with a payload of `length` bytes. -/
def listHead (length : Nat) : Bytes :=
  if length < 56 then [UInt8.ofNat (0xc0 + length)]
  else UInt8.ofNat (0xf7 + (Bytes.minimal length).length) :: Bytes.minimal length

/-- A single byte below `0x80` stands for itself. -/
def bytes : Bytes → Bytes
  | [x] => if x < 0x80 then [x] else bytesHead 1 ++ [x]
  | b => bytesHead b.length ++ b

def bool (b : Bool) : Bytes := if b then [0x01] else [0x80]

/-- An integer of `width` bytes, at most eight: its leading zero bytes are counted off and the
rest is written behind a head of its own. -/
def word (width n : Nat) : Bytes :=
  match (Bytes.ofNat width n).trim with
  | [] => [0x80]
  | [x] => if x ≤ 0x7f then [x] else [0x81, x]
  | b => UInt8.ofNat (0x80 + b.length) :: b

def u8 (n : UInt8) : Bytes := word 1 n.toNat

def u32 (n : UInt32) : Bytes := word 4 n.toNat

def u64 (n : UInt64) : Bytes := word 8 n.toNat

/-- Wide integers drop whole zero bytes by their count of leading zero bits. -/
def u256 (x : U256) : Bytes :=
  bytes ((Bytes.ofNat 32 x.toNat).drop (x.leadingZeros / 8))

/-- A list of items that are already encoded. -/
def list : List Bytes → Bytes
  | [] => [0xc0]
  | items => listHead items.flatten.length ++ items.flatten

/-- A list under construction: fields gather behind a head that is written last. -/
structure Writer where
  payload : Bytes

namespace Writer

def empty : Writer := ⟨[]⟩

def field (w : Writer) (encoded : Bytes) : Writer := ⟨w.payload ++ encoded⟩

def finish (w : Writer) : Bytes := listHead w.payload.length ++ w.payload

@[simp] theorem payload_field (w : Writer) (b : Bytes) :
    (w.field b).payload = w.payload ++ b := rfl

end Writer

/-- The fields of a record in order. -/
def record (fields : List Bytes) : Bytes :=
  (fields.foldl Writer.field Writer.empty).finish

end ChainSync.Rlp
