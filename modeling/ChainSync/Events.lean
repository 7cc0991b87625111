set_option autoImplicit false

namespace ChainSync

/-- A subscription that is still held, with the events it has not taken yet, oldest first. -/
structure Subscriber (α : Type) where
  id : Nat
  backlog : List α
  deriving DecidableEq, Repr

/-- Delivers every published event to each subscription. A closed bus takes and publishes nothing
more, but what lies in a backlog can still be taken. -/
structure EventBus (α : Type) where
  nextId : Nat := 0
  subscribers : List (Subscriber α) := []
  isOpen : Bool := true
  deriving DecidableEq, Repr

namespace EventBus

/-- What a wait for the next event comes to. -/
inductive Next (α : Type) where
  | event (event : α)
  /-- Nothing is there, but something may still come. -/
  | waiting
  | ended
  deriving DecidableEq, Repr

variable {α : Type}

def empty : EventBus α := {}

/-- A subscription to a closed bus is not held. -/
def subscribe (b : EventBus α) : Nat × EventBus α :=
  (b.nextId,
   { b with
     nextId := b.nextId + 1
     subscribers := if b.isOpen then b.subscribers ++ [⟨b.nextId, []⟩] else b.subscribers })

def subscriberCount (b : EventBus α) : Nat := b.subscribers.length

def backlog (b : EventBus α) (id : Nat) : List α :=
  match b.subscribers.find? (·.id == id) with
  | some s => s.backlog
  | none => []

/-- How many subscriptions the event went to. -/
def publish (b : EventBus α) (event : α) : Nat × EventBus α :=
  if b.isOpen then
    (b.subscribers.length,
     { b with subscribers := b.subscribers.map fun s => { s with backlog := s.backlog ++ [event] } })
  else (0, b)

def unsubscribe (b : EventBus α) (id : Nat) : EventBus α :=
  { b with subscribers := b.subscribers.filter (·.id != id) }

/-- The oldest event not taken yet. -/
def tryRecv (b : EventBus α) (id : Nat) : Option α × EventBus α :=
  match b.backlog id with
  | [] => (none, b)
  | event :: _ =>
    (some event, { b with subscribers := b.subscribers.map fun s =>
      if s.id == id then { s with backlog := s.backlog.tail } else s })

/-- A wait is over when an event is there or when none can come any more. -/
def recv (b : EventBus α) (id : Nat) : Next α × EventBus α :=
  match b.tryRecv id with
  | (some event, b) => (.event event, b)
  | (none, b) => (if b.isOpen then .waiting else .ended, b)

/-- Everything not taken yet, leaving nothing behind. -/
def drain (b : EventBus α) (id : Nat) : List α × EventBus α :=
  (b.backlog id, { b with subscribers := b.subscribers.map fun s =>
    if s.id == id then { s with backlog := [] } else s })

def close (b : EventBus α) : EventBus α := { b with isOpen := false }

end EventBus
end ChainSync
