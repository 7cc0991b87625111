import ChainSync.Fork.Id
set_option autoImplicit false

namespace ChainSync.Fork

/-- Why a remote node is not worth talking to. -/
inductive Mismatch where
  /-- It stands at a fork we have passed and does not know what follows. -/
  | remoteStale (remote : Id)
  /-- It follows another chain, or we are the ones who lag. -/
  | localIncompatibleOrStale (remote : Id)
  deriving DecidableEq, Repr

def Mismatch.message : Mismatch → String
  | .remoteStale remote => "Remote fork id " ++ remote.text ++ " is stale, it needs a software update"
  | .localIncompatibleOrStale remote =>
    "Remote fork id " ++ remote.text ++ " is incompatible or the local node is stale"

/-- The checksum before the first fork and after each one. -/
def sums : Crc32.Hasher → List UInt64 → List UInt32
  | h, [] => [h.finish]
  | h, f :: rest => h.finish :: sums (h.update (Bytes.ofNat 8 f.toNat)) rest

/-- Judges remote fork ids by the local schedule. -/
structure Filter where
  forks : List UInt64
  /-- `sums[i]` is the checksum after the first `i` forks. -/
  sums : List UInt32
  head : UInt64
  deriving DecidableEq, Repr

namespace Filter

def ofSchedule (genesis : Hash) (forks : List UInt64) (head : UInt64) : Filter :=
  ⟨forks, Fork.sums (Crc32.Hasher.empty.update genesis.bytes) forks, head⟩

/-- How many forks stand before the first one the head has not reached. -/
def passed (f : Filter) : Nat := (f.forks.takeWhile (· ≤ f.head)).length

def current (f : Filter) : Id :=
  ⟨f.sums.getD f.passed 0, f.forks.getD f.passed 0⟩

def setHead (f : Filter) (head : UInt64) : Filter := { f with head }

/-- A remote at our fork must not announce one we have passed; a remote at an earlier fork must
know what came next; a remote at a later fork of our schedule is simply ahead. -/
def validate (f : Filter) (remote : Id) : Except Mismatch Unit :=
  if f.sums.getD f.passed 0 = remote.checksum then
    if remote.next > 0 ∧ f.head ≥ remote.next then .error (.localIncompatibleOrStale remote)
    else .ok ()
  else
    match (f.sums.take f.passed).findIdx? (· == remote.checksum) with
    | some past =>
      if f.forks.getD past 0 ≠ remote.next then .error (.remoteStale remote) else .ok ()
    | none =>
      if (f.sums.drop (f.passed + 1)).contains remote.checksum then .ok ()
      else .error (.localIncompatibleOrStale remote)

end Filter
end ChainSync.Fork
