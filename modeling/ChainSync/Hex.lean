import ChainSync.Bytes
set_option autoImplicit false

namespace ChainSync

namespace Hex

def digits : List Char :=
  ['0', '1', '2', '3', '4', '5', '6', '7', '8', '9', 'a', 'b', 'c', 'd', 'e', 'f']

def digit (n : Nat) : Char := digits.getD n '0'

/-- Both cases of the letters are read. -/
def value? (c : Char) : Option Nat :=
  if '0' ≤ c ∧ c ≤ '9' then some (c.toNat - '0'.toNat)
  else if 'a' ≤ c ∧ c ≤ 'f' then some (c.toNat - 'a'.toNat + 10)
  else if 'A' ≤ c ∧ c ≤ 'F' then some (c.toNat - 'A'.toNat + 10)
  else none

def encodeByte (x : UInt8) : List Char := [digit (x.toNat / 16), digit (x.toNat % 16)]

/-- Two lower case digits per byte. -/
def encode (b : Bytes) : List Char := b.flatMap encodeByte

/-- Refuses an odd count of digits and everything that is not one. -/
def decode? : List Char → Option Bytes
  | [] => some []
  | [_] => none
  | a :: b :: rest => do
    let high ← value? a
    let low ← value? b
    return UInt8.ofNat (16 * high + low) :: (← decode? rest)

/-- The number written by a run of digits. -/
def toNat? (cs : List Char) : Option Nat :=
  cs.foldlM (fun n c => (value? c).map (n * 16 + ·)) 0

/-- The fewest digits that write `n`, one for zero. -/
def ofNat (n : Nat) : List Char := Nat.toDigits 16 n

/-- Only the lower case marker `0x` is left out. -/
def dropMarker : List Char → List Char
  | '0' :: 'x' :: rest => rest
  | cs => cs

/-- Bytes as text, behind the marker. -/
def text (b : Bytes) : String := String.ofList ('0' :: 'x' :: encode b)

/-- A number as a text of `width` bytes, behind the marker. -/
def fixed (width n : Nat) : String := text (Bytes.ofNat width n)

theorem value?_digit (n : Nat) (h : n < 16) : value? (digit n) = some n := by
  revert n; decide

theorem decode?_encode (b : Bytes) : decode? (encode b) = some b := by
  induction b with
  | nil => rfl
  | cons x rest ih =>
    have hx := x.toNat_lt
    have high := value?_digit (x.toNat / 16) (by omega)
    have low := value?_digit (x.toNat % 16) (by omega)
    have whole : 16 * (x.toNat / 16) + x.toNat % 16 = x.toNat := by omega
    have tail : decode? (rest.flatMap encodeByte) = some rest := ih
    simp only [encode, List.flatMap_cons, encodeByte, List.cons_append, List.nil_append, decode?,
      high, low, whole, tail, Option.bind_eq_bind, Option.bind_some, UInt8.ofNat_toNat]
    rfl

end Hex

end ChainSync
