set_option autoImplicit false

namespace ChainSync

/-- Values by position, in ascending order, at most one to each. -/
abbrev Positioned (α : Type) := List (Nat × α)

namespace Positioned

variable {α : Type}

def get? (m : Positioned α) (p : Nat) : Option α := m.lookup p

/-- What stood at the position before is lost. -/
def insert (p : Nat) (a : α) : Positioned α → Positioned α
  | [] => [(p, a)]
  | (q, b) :: rest =>
    if p < q then (p, a) :: (q, b) :: rest
    else if p = q then (p, a) :: rest
    else (q, b) :: insert p a rest

def erase (m : Positioned α) (p : Nat) : Positioned α := m.filter (·.1 != p)

/-- Consecutive positions from `p`. -/
def insertAll (m : Positioned α) (p : Nat) : List α → Positioned α
  | [] => m
  | a :: rest => insertAll (m.insert p a) (p + 1) rest

end Positioned
end ChainSync
