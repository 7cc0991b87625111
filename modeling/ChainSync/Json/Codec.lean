import ChainSync.Json.Reader
import ChainSync.Json.Writer
import ChainSync.Word
set_option autoImplicit false

namespace ChainSync.Json

/-- A way to write values of a type and to read them back. -/
class Codec (α : Type) where
  encode : α → Value
  decode? : Value → Option α

/-- Reads a whole text. -/
def parse? (α : Type) [Codec α] (s : String) : Option α := (read? s).bind Codec.decode?

def render {α : Type} [Codec α] (a : α) : String := text (Codec.encode a)

/-- Integers are written as plain digits and have to be below their limit. -/
def natural? (limit : Nat) : Value → Option Nat
  | .number (.natural n) => if n < limit then some n else none
  | _ => none

def ofNat (n : Nat) : Value := .number (.natural n)

instance : Codec UInt64 where
  encode n := ofNat n.toNat
  decode? v := (natural? UInt64.size v).map UInt64.ofNat

instance : Codec UInt32 where
  encode n := ofNat n.toNat
  decode? v := (natural? UInt32.size v).map UInt32.ofNat

instance : Codec UInt8 where
  encode n := ofNat n.toNat
  decode? v := (natural? UInt8.size v).map UInt8.ofNat

instance : Codec Bool where
  encode := .bool
  decode?
    | .bool b => some b
    | _ => none

def decodeAll? {α : Type} [Codec α] : List Value → Option (List α)
  | [] => some []
  | v :: rest =>
    match Codec.decode? v with
    | none => none
    | some a => (decodeAll? rest).map (a :: ·)

instance {α : Type} [Codec α] : Codec (List α) where
  encode as := .array (as.map Codec.encode)
  decode?
    | .array items => decodeAll? items
    | _ => none

instance {α : Type} [Codec α] : Codec (Option α) where
  encode
    | none => .null
    | some a => Codec.encode a
  decode?
    | .null => some none
    | v => (Codec.decode? v).map some

/-- Bytes that nothing is known of are written one by one; a text is read as its own bytes. -/
def encodeBytes (b : Bytes) : Value := Codec.encode (α := List UInt8) b

def decodeBytes? : Value → Option Bytes
  | .string t => some t.bytes
  | v => Codec.decode? v

/-- Hex digits in pairs, with blanks passed over; a digit left at the end is lost. -/
def pairs? : Option Nat → List Char → Option Bytes
  | _, [] => some []
  | high, c :: rest =>
    if isBlank c then pairs? high rest
    else
      match Hex.value? c, high with
      | none, _ => none
      | some d, none => pairs? (some d) rest
      | some d, some h => (UInt8.ofNat (16 * h + d) :: ·) <$> pairs? none rest

def hexText? : Value → Option (List Char)
  | .string t => t.chars?.map Hex.dropMarker
  | _ => none

/-- Exactly `width` bytes, in as many digits as they have. -/
def fixed? (width : Nat) (v : Value) : Option Nat := do
  let cs ← hexText? v
  if cs.length ≠ 2 * width then none
  else
    let b ← pairs? none cs
    some (Bytes.toNat (b ++ List.replicate (width - b.length) 0))

def ofFixed (width n : Nat) : Value := .string (.ofString (Hex.fixed width n))

instance : Codec Hash where
  encode h := ofFixed 32 h.toNat
  decode? v := (fixed? 32 v).map (BitVec.ofNat 256)

instance : Codec Address where
  encode a := ofFixed 20 a.toNat
  decode? v := (fixed? 20 v).map (BitVec.ofNat 160)

instance : Codec Bloom where
  encode b := ofFixed 256 b.toNat
  decode? v := (fixed? 256 v).map (BitVec.ofNat 2048)

/-- In hex without leading zeros; read from any number of digits up to 64. -/
instance : Codec U256 where
  encode x := .string (.ofString (String.ofList ('0' :: 'x' :: Hex.ofNat x.toNat)))
  decode? v := do
    let cs ← hexText? v
    if cs.isEmpty ∨ cs.length > 64 then none
    else
      let b ← pairs? (if cs.length % 2 = 1 then some 0 else none) cs
      some (U256.ofNat (Bytes.toNat b))

/-- What a field holds, if it is there: unknown fields are passed over, a known one may not come
twice. -/
def collect? (names : List String) : List (Text × Value) → Option (List (String × Value))
  | [] => some []
  | (k, v) :: rest => do
    let name ← k.string?
    let others ← collect? names rest
    if names.contains name then
      if (others.lookup name).isSome then none else some ((name, v) :: others)
    else if v.ignorable then some others
    else none

/-- The fields of a record in the order of their names. A record may also be given as an array,
which may be too short but not too long. -/
def record? (names : List String) : Value → Option (List (Option Value))
  | .object fs => (collect? names fs).map fun found => names.map fun name => found.lookup name
  | .array items =>
    if items.length ≤ names.length then
      some (items.map some ++ List.replicate (names.length - items.length) none)
    else none
  | _ => none

/-- A record from the values of its fields, in the order of their names. -/
def ofRecord (names : List String) (values : List Value) : Value :=
  .object ((names.map Text.ofString).zip values)

end ChainSync.Json
