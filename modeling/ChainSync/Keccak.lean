import ChainSync.Word
set_option autoImplicit false

namespace ChainSync

namespace Keccak

/-- Five lanes with one `y` coordinate. -/
structure Row where
  x0 : UInt64
  x1 : UInt64
  x2 : UInt64
  x3 : UInt64
  x4 : UInt64

structure State where
  y0 : Row
  y1 : Row
  y2 : Row
  y3 : Row
  y4 : Row

def rotl (x n : UInt64) : UInt64 := (x <<< n) ||| (x >>> (64 - n))

def Row.zero : Row := ⟨0, 0, 0, 0, 0⟩

def Row.xor (a b : Row) : Row :=
  ⟨a.x0 ^^^ b.x0, a.x1 ^^^ b.x1, a.x2 ^^^ b.x2, a.x3 ^^^ b.x3, a.x4 ^^^ b.x4⟩

def Row.chi (a : Row) : Row :=
  ⟨a.x0 ^^^ (~~~a.x1 &&& a.x2), a.x1 ^^^ (~~~a.x2 &&& a.x3), a.x2 ^^^ (~~~a.x3 &&& a.x4),
   a.x3 ^^^ (~~~a.x4 &&& a.x0), a.x4 ^^^ (~~~a.x0 &&& a.x1)⟩

def State.zero : State := ⟨.zero, .zero, .zero, .zero, .zero⟩

def State.xor (a b : State) : State :=
  ⟨a.y0.xor b.y0, a.y1.xor b.y1, a.y2.xor b.y2, a.y3.xor b.y3, a.y4.xor b.y4⟩

/-- Adds to every lane the parities of the two columns beside it. -/
def State.theta (s : State) : State :=
  let c := (((s.y0.xor s.y1).xor s.y2).xor s.y3).xor s.y4
  let d : Row := ⟨c.x4 ^^^ rotl c.x1 1, c.x0 ^^^ rotl c.x2 1, c.x1 ^^^ rotl c.x3 1,
    c.x2 ^^^ rotl c.x4 1, c.x3 ^^^ rotl c.x0 1⟩
  ⟨s.y0.xor d, s.y1.xor d, s.y2.xor d, s.y3.xor d, s.y4.xor d⟩

/-- Rotates every lane by its own amount and moves lane `(x, y)` to `(y, 2x + 3y)`. -/
def State.rhoPi (s : State) : State :=
  ⟨⟨s.y0.x0, rotl s.y1.x1 44, rotl s.y2.x2 43, rotl s.y3.x3 21, rotl s.y4.x4 14⟩,
   ⟨rotl s.y0.x3 28, rotl s.y1.x4 20, rotl s.y2.x0 3, rotl s.y3.x1 45, rotl s.y4.x2 61⟩,
   ⟨rotl s.y0.x1 1, rotl s.y1.x2 6, rotl s.y2.x3 25, rotl s.y3.x4 8, rotl s.y4.x0 18⟩,
   ⟨rotl s.y0.x4 27, rotl s.y1.x0 36, rotl s.y2.x1 10, rotl s.y3.x2 15, rotl s.y4.x3 56⟩,
   ⟨rotl s.y0.x2 62, rotl s.y1.x3 55, rotl s.y2.x4 39, rotl s.y3.x0 41, rotl s.y4.x1 2⟩⟩

def State.chi (s : State) : State := ⟨s.y0.chi, s.y1.chi, s.y2.chi, s.y3.chi, s.y4.chi⟩

def State.iota (s : State) (rc : UInt64) : State :=
  { s with y0 := { s.y0 with x0 := s.y0.x0 ^^^ rc } }

def State.round (s : State) (rc : UInt64) : State := s.theta.rhoPi.chi.iota rc

def roundConstants : List UInt64 :=
  [0x0000000000000001, 0x0000000000008082, 0x800000000000808a, 0x8000000080008000,
   0x000000000000808b, 0x0000000080000001, 0x8000000080008081, 0x8000000000008009,
   0x000000000000008a, 0x0000000000000088, 0x0000000080008009, 0x000000008000000a,
   0x000000008000808b, 0x800000000000008b, 0x8000000000008089, 0x8000000000008003,
   0x8000000000008002, 0x8000000000000080, 0x000000000000800a, 0x800000008000000a,
   0x8000000080008081, 0x8000000000008080, 0x0000000080000001, 0x8000000080008008]

def State.permute (s : State) : State := roundConstants.foldl State.round s

/-- Eight bytes to a lane, least significant first. -/
def lanes : Bytes → List UInt64
  | a :: b :: c :: d :: e :: f :: g :: h :: rest =>
    (a.toUInt64 ||| (b.toUInt64 <<< 8) ||| (c.toUInt64 <<< 16) ||| (d.toUInt64 <<< 24)
      ||| (e.toUInt64 <<< 32) ||| (f.toUInt64 <<< 40) ||| (g.toUInt64 <<< 48)
      ||| (h.toUInt64 <<< 56)) :: lanes rest
  | _ => []

def laneBytes (x : UInt64) : Bytes :=
  [x.toUInt8, (x >>> 8).toUInt8, (x >>> 16).toUInt8, (x >>> 24).toUInt8,
   (x >>> 32).toUInt8, (x >>> 40).toUInt8, (x >>> 48).toUInt8, (x >>> 56).toUInt8]

/-- The seventeen lanes of a block fill three rows and two lanes of the fourth. -/
def State.ofBlock : List UInt64 → State
  | [a, b, c, d, e, f, g, h, i, j, k, l, m, n, o, p, q] =>
    ⟨⟨a, b, c, d, e⟩, ⟨f, g, h, i, j⟩, ⟨k, l, m, n, o⟩, ⟨p, q, 0, 0, 0⟩, .zero⟩
  | _ => .zero

def rate : Nat := 136

/-- A one bit, zeros, and a one bit at the end of the block. -/
def pad (b : Bytes) : Bytes :=
  match rate - b.length % rate with
  | 0 | 1 => b ++ [0x81]
  | k + 2 => b ++ 0x01 :: (List.replicate k 0 ++ [0x80])

def absorb : Nat → State → Bytes → State
  | 0, s, _ => s
  | n + 1, s, b => absorb n (s.xor (.ofBlock (lanes (b.take rate)))).permute (b.drop rate)

def State.digest (s : State) : Bytes :=
  laneBytes s.y0.x0 ++ laneBytes s.y0.x1 ++ laneBytes s.y0.x2 ++ laneBytes s.y0.x3

end Keccak

/-- Keccak-256 with a single padding bit, not the two of the later standard. -/
def keccak (b : Bytes) : Hash :=
  .ofBytes (Keccak.absorb (b.length / Keccak.rate + 1) .zero (Keccak.pad b)).digest

end ChainSync
