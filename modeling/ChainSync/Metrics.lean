import ChainSync.Category
import ChainSync.Duration
set_option autoImplicit false

namespace ChainSync

/-- Observations counted by the first bound that is not below them, with their sum. -/
structure Histogram where
  /-- One count for each bound, and one for what lies above all of them. -/
  counts : List Nat
  sum : Float
  count : Nat
  deriving Repr

namespace Histogram

def bounds : List Float := [0.005, 0.01, 0.025, 0.05, 0.1, 0.25, 0.5, 1.0, 2.5, 5.0, 10.0]

def empty : Histogram := ⟨List.replicate 12 0, 0.0, 0⟩

def observe (h : Histogram) (x : Float) : Histogram :=
  let place := (bounds.takeWhile (· < x)).length
  ⟨h.counts.modify place (· + 1), h.sum + x, h.count + 1⟩

end Histogram

structure CategoryMetrics where
  /-- Counts of items are kept modulo `2 ^ 64`. -/
  inbound : UInt64
  dropped : UInt64
  timeouts : Nat
  latency : Histogram
  deriving Repr

/-- Counters of everything that sessions fetched since the start. -/
structure Metrics where
  categories : PerCategory CategoryMetrics
  throttle : Nat
  stateFetchFallbacks : Nat
  deriving Repr

namespace Metrics

def zero : Metrics := ⟨.const ⟨0, 0, 0, .empty⟩, 0, 0⟩

def modify (m : Metrics) (c : Category) (f : CategoryMetrics → CategoryMetrics) : Metrics :=
  { m with categories := m.categories.modify c f }

def addInbound (m : Metrics) (c : Category) (items : Nat) : Metrics :=
  m.modify c fun k => { k with inbound := k.inbound + UInt64.ofNat items }

def addDropped (m : Metrics) (c : Category) (items : Nat) : Metrics :=
  m.modify c fun k => { k with dropped := k.dropped + UInt64.ofNat items }

def addTimeout (m : Metrics) (c : Category) : Metrics :=
  m.modify c fun k => { k with timeouts := k.timeouts + 1 }

def addLatency (m : Metrics) (c : Category) (elapsed : Duration) : Metrics :=
  m.modify c fun k => { k with latency := k.latency.observe elapsed.secs }

def addThrottle (m : Metrics) : Metrics := { m with throttle := m.throttle + 1 }

def addFallback (m : Metrics) : Metrics :=
  { m with stateFetchFallbacks := m.stateFetchFallbacks + 1 }

end Metrics
end ChainSync
