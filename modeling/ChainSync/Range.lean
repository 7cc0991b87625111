set_option autoImplicit false

namespace ChainSync

/-- `count` consecutive positions from `start`. -/
structure Range where
  start : Nat
  count : Nat
  deriving DecidableEq, Repr

namespace Range

/-- The first position behind the range, as an unbounded sum. In 64 bits it would be another one
only for a range that ends at block 2^64 - 1, and no skeleton with positions in 64 bits comes to
that. -/
def stop (r : Range) : Nat := r.start + r.count

def contains (r : Range) (position : Nat) : Bool := r.start ≤ position && position < r.stop

def overlaps (a b : Range) : Bool := a.start < b.stop && b.start < a.stop

/-- By start, then by count. -/
def order (a b : Range) : Ordering := (compare a.start b.start).then (compare a.count b.count)

def positions (r : Range) : List Nat := List.range' r.start r.count

def text (r : Range) : String :=
  if r.count = 0 then "[" ++ toString r.start ++ ", empty)"
  else "[" ++ toString r.start ++ "..=" ++ toString (r.stop - 1) ++ "]"

end Range

/-- Names one request of one session. -/
structure RequestId where
  session : Nat
  attempt : Nat
  deriving DecidableEq, Repr

def RequestId.text (id : RequestId) : String := toString id.session ++ "/" ++ toString id.attempt

end ChainSync
