import ChainSync.Fetch.Call
set_option autoImplicit false

namespace ChainSync

open Fetch

/-- A single request for headers to a chosen peer, outside of any shared work. -/
structure HeaderQuery where
  call : Call
  /-- What errors name as asked for; a request by hash counts from zero. -/
  range : Range
  deriving DecidableEq, Repr

namespace HeaderQuery

variable {σ : Type}

def rangeOf (r : HeadersRequest) : Range :=
  match r.start with
  | .number start => ⟨start, r.limit⟩
  | .hash _ => ⟨0, r.limit⟩

/-- The peer has to have a free slot. Nothing is sent for someone who has given up already. -/
def ask (h : Hub σ) (peer : SyncPeer) (request : HeadersRequest) (cancelled : Bool) :
    Hub σ × Except SyncError HeaderQuery :=
  match h.peers.beginRequest peer.id .headers with
  | .error err => (h, .error (.peerSet err))
  | .ok (_, peers) =>
    if cancelled then (h, .error .cancelled)
    else
      let (call, h) := (h.setPeers peers).send peer .headers (.headers request)
      (h, .ok ⟨call, rangeOf request⟩)

def conclude (q : HeaderQuery) (h : Hub σ) : Ending → Hub σ × Except SyncError (List Header)
  | .answered payload =>
    let headers := payload.headersOf
    let elapsed := h.elapsed q.call
    ({ h with
        metrics := (h.metrics.addInbound .headers headers.length).addLatency .headers elapsed
        peers := h.peers.recordDelivery q.call.peer .headers headers.length elapsed },
      .ok headers)
  | .failed err => (h, .error (.peerFault q.call.peer .headers q.range err.message))
  | .timedOut =>
    ({ h with
        metrics := h.metrics.addTimeout .headers
        peers := (h.peers.recordTimeout q.call.peer .headers).2 },
      .error (.timeout q.call.peer .headers q.range))

/-- Nothing but its end and the wish to give up matter to a query. -/
def step (q : HeaderQuery) (h : Hub σ) (cancelled : Bool) :
    Signal → Hub σ × Option (Except SyncError (List Header))
  | .ended ticket ending =>
    if ticket = q.call.ticket then
      let (h, result) := q.conclude (h.finish q.call) ending
      (h, some result)
    else (h, none)
  | .woken => if cancelled then (h.finish q.call, some (.error .cancelled)) else (h, none)
  | .deadline => (h, none)

end HeaderQuery
end ChainSync
