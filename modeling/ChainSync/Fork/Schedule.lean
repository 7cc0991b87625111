import ChainSync.Fork.Id
set_option autoImplicit false

namespace ChainSync.Fork

/-- Inserts a block number into an ascending list that does not hold it yet. -/
def insertBlock (block : UInt64) : List UInt64 → List UInt64
  | [] => [block]
  | b :: rest =>
    if block < b then block :: b :: rest
    else if block = b then b :: rest
    else b :: insertBlock block rest

/-- The blocks at which a chain changes its rules, in any order; zero means from the start. -/
structure Schedule where
  chainId : UInt64
  activationBlocks : List UInt64
  deriving DecidableEq, Repr

/-- Ascending, each fork once, without those active from the start. -/
def Schedule.forks (s : Schedule) : List UInt64 :=
  (s.activationBlocks.filter (· != 0)).foldl (fun acc b => insertBlock b acc) []

def Schedule.forkId (s : Schedule) (genesis : Hash) (head : UInt64) : Id :=
  .ofHead genesis s.forks head

end ChainSync.Fork
