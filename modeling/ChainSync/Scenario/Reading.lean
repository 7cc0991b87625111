import ChainSync.Category
import ChainSync.Json.Codec
import ChainSync.Range
set_option autoImplicit false

namespace ChainSync

/-- Values as they are written in scenarios, by hand or by a generator. What is left out and what
is null are the same. -/
class Readable (α : Type) where
  read? : Json.Value → Option α
  /-- What is meant where nothing is written, if anything is. -/
  absent : Option α := none

namespace Json.Value

def field (v : Value) (name : String) : Value :=
  match v with
  | .object fs => ((fs.find? fun f => f.1.string? == some name).map (·.2)).getD .null
  | _ => .null

def isNull : Value → Bool
  | .null => true
  | _ => false

def has (v : Value) (name : String) : Bool := !(v.field name).isNull

/-- What an object says under a name. -/
def get? {α : Type} [Readable α] (v : Value) (name : String) : Option α :=
  let w := v.field name
  if w.isNull then Readable.absent else Readable.read? w

/-- With a default of its own for what is left out. -/
def getOr {α : Type} [Readable α] (v : Value) (name : String) (default : α) : Option α :=
  let w := v.field name
  if w.isNull then some default else Readable.read? w

end Json.Value

open Json

instance : Readable Value where
  read? := some
  absent := some .null

instance : Readable Nat where
  read?
    | .number (.natural n) => some n
    | _ => none

instance : Readable Int where
  read?
    | .number (.natural n) => some n
    | .number (.negative n) => some (-n)
    | _ => none

instance : Readable UInt64 where
  read? v := (Readable.read? v).map UInt64.ofNat

instance : Readable Bool where
  read? := Codec.decode?
  absent := some false

instance : Readable String where
  read?
    | .string t => t.string?
    | _ => none
  absent := some ""

instance {α : Type} [Readable α] : Readable (Option α) where
  read? v := if v.isNull then some none else (Readable.read? v).map some
  absent := some none

instance {α : Type} [Readable α] : Readable (List α) where
  read?
    | .array items => items.mapM Readable.read?
    | _ => none
  absent := some []

instance {α β : Type} [Readable α] [Readable β] : Readable (α × β) where
  read?
    | .array [a, b] => do return (← Readable.read? a, ← Readable.read? b)
    | _ => none

/-- A block of bytes may be repeated, and a text stands for its own bytes. -/
instance : Readable Bytes where
  read?
    | .string t => t.chars?.bind fun cs => Hex.decode? (Hex.dropMarker cs)
    | .object fs => do
      let v := Value.object fs
      if v.has "utf8" then
        let text : String ← v.get? "utf8"
        return Bytes.ofString text
      else
        let digits : String ← v.get? "repeat"
        let block ← Hex.decode? (Hex.dropMarker digits.toList)
        return (List.replicate (← v.get? "count") block).flatten
    | _ => none
  absent := some []

/-- Small numbers stand for the digests with their value. -/
instance : Readable Hash where
  read?
    | .number (.natural n) => some (BitVec.ofNat 256 n)
    | v => (Readable.read? v).map Hash.ofBytes

instance : Readable Address where
  read? v := (Readable.read? v).map Address.ofBytes

instance : Readable Bloom where
  read? v := (Readable.read? v).map Bloom.ofBytes
  absent := some 0

/-- A number, its decimal digits, or its hex digits behind their marker. -/
instance : Readable U256 where
  read?
    | .number (.natural n) => some (U256.ofNat n)
    | .string t =>
      match t.chars? with
      | some ('0' :: 'x' :: cs) => (Hex.toNat? cs).map U256.ofNat
      | some cs => (String.ofList cs).toNat?.map U256.ofNat
      | none => none
    | _ => none

instance : Readable Category where
  read? v := do
    let name : String ← Readable.read? v
    Category.all.find? (·.shortName == name)

instance : Readable Range where
  read? v := do
    let (start, count) : Nat × Nat ← Readable.read? v
    return ⟨start, count⟩

end ChainSync
