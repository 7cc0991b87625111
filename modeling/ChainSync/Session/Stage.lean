import ChainSync.Ancestor
import ChainSync.Fetch.BlockData
import ChainSync.Fetch.Run
import ChainSync.Headers.Fill
import ChainSync.Headers.SkeletonFetch
import ChainSync.State.Download
set_option autoImplicit false

namespace ChainSync

open Fetch

/-- One try to sync from one master peer. -/
structure Attempt where
  mode : SyncMode
  master : SyncPeer
  target : Nat
  /-- The last block whose state is fetched rather than computed. -/
  pivot : Option Nat

/-- A batch handed to the local chain, who delivered which of its blocks, and what follows it in
the same segment: the state of the pivot if it ends there, then the headers above. -/
structure Insertion where
  category : Category
  batch : Batch
  headers : List Header
  deliveredBy : List (Option PeerId)
  pivotState : Option Header
  above : List Header

/-- One of two fetches that run side by side. -/
inductive Leg (τ : Type) where
  | running (run : Run τ)
  | complete (task : τ)

def Leg.calls {τ : Type} : Leg τ → List Call
  | .running run => run.calls
  | .complete _ => []

def Leg.deadline? {σ τ : Type} (h : Hub σ) : Leg τ → Option Nat
  | .running run => run.deadline? h
  | .complete _ => none

/-- Ends the fetch of a leg because the other one failed. -/
def Leg.leave {σ τ : Type} (h : Hub σ) : Leg τ → Hub σ
  | .running run => run.leave h
  | .complete _ => h

/-- What an attempt is waiting for. -/
inductive Stage where
  | ancestor (search : AncestorSearch)
  | skeleton (origin : Header) (stop : Nat) (fetch : SkeletonFetch)
  | fill (run : Run HeaderFill)
  | bodies (headers : List Header) (run : Run (BlockFetch Body))
  | bodiesAndReceipts (headers : List Header) (pivotState : Option Header) (above : List Header)
      (bodies : Leg (BlockFetch Body)) (receipts : Leg (BlockFetch (List Receipt)))
  | state (pivot : Header) (above : List Header) (run : Run StateDownload) (expires : Nat)
  | inserting (insertion : Insertion)

namespace Stage

def calls : Stage → List Call
  | .ancestor search => [search.query.call]
  | .skeleton _ _ fetch => [fetch.query.call]
  | .fill run => run.calls
  | .bodies _ run => run.calls
  | .bodiesAndReceipts _ _ _ first second => first.calls ++ second.calls
  | .state _ _ run _ => run.calls
  | .inserting _ => []

def earlier : Option Nat → Option Nat → Option Nat
  | some a, some b => some (min a b)
  | some a, none => some a
  | none, b => b

/-- When the stage ends by itself, if nothing happens before. -/
def deadline? {σ : Type} (h : Hub σ) : Stage → Option Nat
  | .ancestor _ | .skeleton .. | .inserting _ => none
  | .fill run => run.deadline? h
  | .bodies _ run => run.deadline? h
  | .bodiesAndReceipts _ _ _ first second => earlier (first.deadline? h) (second.deadline? h)
  | .state _ _ run expires => earlier (run.deadline? h) (some expires)

end Stage
end ChainSync
