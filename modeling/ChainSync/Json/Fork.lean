import ChainSync.Fork.Schedule
import ChainSync.Json.Codec
set_option autoImplicit false

namespace ChainSync.Fork

open Json

instance : Codec Id where
  encode id := ofRecord ["fork_hash", "fork_next"]
    [ofFixed 4 id.checksum.toNat, Codec.encode id.next]
  decode? v :=
    match record? ["fork_hash", "fork_next"] v with
    | some [some checksum, some next] => do
      return ⟨UInt32.ofNat (← fixed? 4 checksum), ← Codec.decode? next⟩
    | _ => none

/-- A schedule without activation blocks may leave them out. -/
instance : Codec Schedule where
  encode s := ofRecord ["chainId", "forkActivationBlocks"]
    [Codec.encode s.chainId, Codec.encode s.activationBlocks]
  decode? v :=
    match record? ["chainId", "forkActivationBlocks"] v with
    | some [some chainId, blocks] => do
      return ⟨← Codec.decode? chainId, ← (blocks.map Codec.decode?).getD (some [])⟩
    | _ => none

end ChainSync.Fork
