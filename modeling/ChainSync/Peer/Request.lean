import ChainSync.Block.Body
set_option autoImplicit false

namespace ChainSync

inductive HeaderStart where
  | hash (hash : Hash)
  | number (number : Nat)
  deriving DecidableEq, Repr

/-- Asks for `limit` headers from `start` on, leaving out `skip` between them. -/
structure HeadersRequest where
  start : HeaderStart
  limit : Nat
  skip : Nat := 0
  reverse : Bool := false
  deriving DecidableEq, Repr

namespace HeadersRequest

/-- Consecutive headers, oldest first. -/
def range (start limit : Nat) : HeadersRequest := { start := .number start, limit }

def single (start : HeaderStart) : HeadersRequest := { start, limit := 1 }

def spaced (start limit skip : Nat) : HeadersRequest := { start := .number start, limit, skip }

/-- The block numbers asked for; unknown when the request starts from a hash. Going back, genesis
is not passed. -/
def numbers (r : HeadersRequest) : List Nat :=
  match r.start with
  | .hash _ => []
  | .number start =>
    (List.range r.limit).map fun i =>
      if r.reverse then start - i * (r.skip + 1) else start + i * (r.skip + 1)

end HeadersRequest

/-- Why a connection gave no answer. -/
inductive ConnectionError where
  | disconnected
  | protocolViolation (reason : String)
  | sendFailed (reason : String)
  deriving DecidableEq, Repr

def ConnectionError.message : ConnectionError → String
  | .disconnected => "Peer disconnected"
  | .protocolViolation reason => s!"Peer sent a message that violates the protocol: {reason}"
  | .sendFailed reason => s!"Failed to send request to peer: {reason}"

/-- The questions a peer can be asked. -/
inductive Request where
  | headers (request : HeadersRequest)
  | bodies (blocks : List Hash)
  | receipts (blocks : List Hash)
  | nodes (nodes : List Hash)
  deriving DecidableEq, Repr

/-- An answer is whatever the peer sent: fewer items than asked for, other ones, or none. -/
inductive Payload where
  | headers (headers : List Header)
  | bodies (bodies : List Body)
  | receipts (receipts : List (List Receipt))
  | nodes (nodes : List Bytes)
  deriving DecidableEq, Repr

namespace Payload

def headersOf : Payload → List Header
  | .headers hs => hs
  | _ => []

def bodiesOf : Payload → List Body
  | .bodies bs => bs
  | _ => []

def receiptsOf : Payload → List (List Receipt)
  | .receipts rs => rs
  | _ => []

def nodesOf : Payload → List Bytes
  | .nodes ns => ns
  | _ => []

end Payload
end ChainSync
