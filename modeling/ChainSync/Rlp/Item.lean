import ChainSync.Rlp.Encoding
set_option autoImplicit false

namespace ChainSync.Rlp

/-- What an encoding stands for: byte strings and lists, nested freely. -/
inductive Item where
  | bytes (b : Bytes)
  | list (items : List Item)
  deriving Repr

mutual

def Item.encode : Item → Bytes
  | .bytes b => Rlp.bytes b
  | .list items => listHead (Item.encodeAll items).length ++ Item.encodeAll items

def Item.encodeAll : List Item → Bytes
  | [] => []
  | x :: rest => x.encode ++ Item.encodeAll rest

end

/-- A value with the way each part of it is written. -/
inductive Layout where
  | bytes (b : Bytes)
  | word (n : UInt64)
  | list (parts : List Layout)
  | record (parts : List Layout)
  deriving Repr

mutual

def Layout.encode : Layout → Bytes
  | .bytes b => Rlp.bytes b
  | .word n => u64 n
  | .list parts => Rlp.list (Layout.encodeEach parts)
  | .record parts => Rlp.record (Layout.encodeEach parts)

def Layout.encodeEach : List Layout → List Bytes
  | [] => []
  | x :: rest => x.encode :: Layout.encodeEach rest

end

mutual

/-- The item a layout stands for, whichever way its lists are written. -/
def Layout.item : Layout → Item
  | .bytes b => .bytes b
  | .word n => .bytes (Bytes.minimal n.toNat)
  | .list parts => .list (Layout.items parts)
  | .record parts => .list (Layout.items parts)

def Layout.items : List Layout → List Item
  | [] => []
  | x :: rest => x.item :: Layout.items rest

end

end ChainSync.Rlp
