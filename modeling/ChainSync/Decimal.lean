set_option autoImplicit false

namespace ChainSync

/-- The nearest whole number to a fraction; a half goes to the even neighbour. -/
def roundHalfEven (num den : Nat) : Nat :=
  let whole := num / den
  let rest := num % den
  if 2 * rest < den then whole
  else if 2 * rest > den then whole + 1
  else whole + whole % 2

theorem roundHalfEven_mul (n den : Nat) (h : 0 < den) : roundHalfEven (n * den) den = n := by
  simp [roundHalfEven, Nat.mul_div_cancel _ h, Nat.mul_mod_left, h]

namespace Decimal

/-- A positive double as `mantissa * 2 ^ (power - 1074)`, exactly. -/
structure Binary where
  mantissa : Nat
  power : Nat
  deriving Repr

/-- The leading bit of a mantissa, which a double leaves out unless its exponent is least. -/
def hiddenBit : Nat := 1 <<< 52

/-- Sign ignored; infinities and the rest beyond them come out as huge numbers. -/
def Binary.ofBits (bits : UInt64) : Binary :=
  let fraction := bits.toNat % hiddenBit
  let exponent := bits.toNat / hiddenBit % 2048
  if exponent = 0 then ⟨fraction, 0⟩ else ⟨fraction + hiddenBit, exponent - 1⟩

/-- The decimals that read back as a given double, as multiples of `2 ^ (power - 1076)`. -/
structure Interval where
  low : Nat
  value : Nat
  high : Nat
  closed : Bool
  power : Nat

/-- The gap below a power of two is half the gap above it. -/
def Binary.interval (b : Binary) : Interval :=
  let low := if b.mantissa = hiddenBit ∧ b.power > 0 then 4 * b.mantissa - 1 else 4 * b.mantissa - 2
  ⟨low, 4 * b.mantissa, 4 * b.mantissa + 2, b.mantissa % 2 = 0, b.power⟩

def tenTo (e : Nat) : Nat := Nat.pow 10 e

/-- Compares `n * 2 ^ (power - 1076)` with `d * 10 ^ (e - 400)`. -/
def compareScaled (n power d e : Nat) : Ordering :=
  compare (n <<< power * tenTo 400) ((d * tenTo e) <<< 1076)

/-- Whether `d * 10 ^ (e - 400)` reads back as the double. -/
def Interval.contains (i : Interval) (d e : Nat) : Bool :=
  let above := compareScaled i.low i.power d e
  let below := compareScaled i.high i.power d e
  (above == .lt || (i.closed && above == .eq)) && (below == .gt || (i.closed && below == .eq))

/-- Of the two neighbours of the value on the grid of step `10 ^ (e - 400)`, the nearer one that
reads back; an exact middle goes to the even one. -/
def Interval.onGrid? (i : Interval) (e : Nat) : Option Nat :=
  let num := i.value <<< i.power * tenTo 400
  let den := tenTo e <<< 1076
  let near := roundHalfEven num den
  let far := if near = num / den then near + 1 else num / den
  if i.contains near e then some near
  else if i.contains far e then some far
  else none

/-- The coarsest grid that holds a number reading back, from step `10 ^ (e - 400)` downwards. -/
def Interval.search (i : Interval) : Nat → Nat × Nat
  | 0 => (0, 0)
  | e + 1 =>
    match i.onGrid? (e + 1) with
    | some d => if d = 0 then i.search e else (d, e + 1)
    | none => i.search e

/-- The fewest digits that read back, with the power of ten of the last one plus 400. -/
def shortest (x : Float) : Nat × Nat :=
  let b := Binary.ofBits x.toBits
  if b.mantissa = 0 then (0, 400) else b.interval.search 720

/-- Digits in positional notation: zeros fill up to the point, which is left out before nothing. -/
def positional (d e : Nat) : String :=
  if e ≥ 400 then toString (d * tenTo (e - 400))
  else
    let places := 400 - e
    let whole := d / tenTo places
    let rest := (toString (d % tenTo places)).toList
    String.ofList ((toString whole).toList ++ '.' :: List.replicate (places - rest.length) '0' ++ rest)

/-- A finite double that is not negative, in the fewest digits that read back, without exponent. -/
def text (x : Float) : String :=
  let (d, e) := shortest x
  positional d e

end Decimal
end ChainSync
