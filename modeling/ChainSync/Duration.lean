import ChainSync.Decimal
set_option autoImplicit false

namespace ChainSync

/-- A length of time in whole nanoseconds. -/
structure Duration where
  nanos : Nat
  deriving DecidableEq, Repr

namespace Duration

def ofMillis (ms : Nat) : Duration := ⟨ms * 1000000⟩

def ofMicros (us : Nat) : Duration := ⟨us * 1000⟩

def ofSecs (s : Nat) : Duration := ⟨s * 1000000000⟩

def millis (d : Duration) : Nat := d.nanos / 1000000

/-- A timer fires at the first whole millisecond that is not before its deadline. -/
def ceilMillis (d : Duration) : Nat := (d.nanos + 999999) / 1000000

instance : LE Duration := ⟨fun a b => a.nanos ≤ b.nanos⟩

instance : LT Duration := ⟨fun a b => a.nanos < b.nanos⟩

instance (a b : Duration) : Decidable (a ≤ b) := inferInstanceAs (Decidable (a.nanos ≤ b.nanos))

instance (a b : Duration) : Decidable (a < b) := inferInstanceAs (Decidable (a.nanos < b.nanos))

instance : Add Duration := ⟨fun a b => ⟨a.nanos + b.nanos⟩⟩

def max (a b : Duration) : Duration := if a < b then b else a

def times (d : Duration) (n : Nat) : Duration := ⟨d.nanos * n⟩

def clamp (d low high : Duration) : Duration :=
  if d < low then low else if high < d then high else d

def secs (d : Duration) : Float :=
  Float.ofNat (d.nanos / 1000000000) + Float.ofNat (d.nanos % 1000000000) / 1000000000.0

/-- The whole nanosecond nearest to a double of seconds that is not negative. -/
def ofSecsFloat (x : Float) : Duration :=
  let b := Decimal.Binary.ofBits x.toBits
  ⟨roundHalfEven (b.mantissa <<< b.power * 1000000000) (1 <<< 1074)⟩

def scale (d : Duration) (x : Float) : Duration := ofSecsFloat (x * d.secs)

/-- A count of a unit with its fraction of `places` digits, trailing zeros left out. -/
def decimal (whole fraction places : Nat) : String :=
  let digits := (toString fraction).toList
  let padded := List.replicate (places - digits.length) '0' ++ digits
  let kept := (padded.reverse.dropWhile (· == '0')).reverse
  if kept.isEmpty then toString whole else toString whole ++ "." ++ String.ofList kept

/-- In the largest unit that is not above the duration. -/
def text (d : Duration) : String :=
  if d.nanos ≥ 1000000000 then decimal (d.nanos / 1000000000) (d.nanos % 1000000000) 9 ++ "s"
  else if d.nanos ≥ 1000000 then decimal (d.nanos / 1000000) (d.nanos % 1000000) 6 ++ "ms"
  else if d.nanos ≥ 1000 then decimal (d.nanos / 1000) (d.nanos % 1000) 3 ++ "µs"
  else toString d.nanos ++ "ns"

end Duration
end ChainSync
