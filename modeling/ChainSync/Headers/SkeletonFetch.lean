import ChainSync.Headers.Query
import ChainSync.Headers.Skeleton
set_option autoImplicit false

namespace ChainSync

open Fetch

/-- A skeleton being asked of the master, one request after the other. -/
structure SkeletonFetch where
  master : SyncPeer
  start : Nat
  stop : Nat
  size : Nat
  received : List Header
  remaining : List HeadersRequest
  query : HeaderQuery

namespace SkeletonFetch

variable {σ : Type}

/-- Asks the next question, or checks what has come once there is none. -/
def advance (h : Hub σ) (cancelled : Bool) (master : SyncPeer) (start stop size : Nat)
    (received : List Header) :
    List HeadersRequest → Hub σ × Except SyncError (SkeletonFetch ⊕ List Header)
  | [] => (h, (checkSkeleton master.id start stop size received).map .inr)
  | request :: remaining =>
    match HeaderQuery.ask h master request cancelled with
    | (h, .error err) => (h, .error err)
    | (h, .ok query) => (h, .ok (.inl { master, start, stop, size, received, remaining, query }))

def begin (h : Hub σ) (cancelled : Bool) (master : SyncPeer) (start stop size : Nat) :
    Hub σ × Except SyncError (SkeletonFetch ⊕ List Header) :=
  advance h cancelled master start stop size [] (skeletonRequests start stop size)

def step (f : SkeletonFetch) (h : Hub σ) (cancelled : Bool) (signal : Signal) :
    Hub σ × Except SyncError (SkeletonFetch ⊕ List Header) :=
  match f.query.step h cancelled signal with
  | (h, none) => (h, .ok (.inl f))
  | (h, some (.error err)) => (h, .error err)
  | (h, some (.ok headers)) =>
    advance h cancelled f.master f.start f.stop f.size (f.received ++ headers) f.remaining

end SkeletonFetch
end ChainSync
