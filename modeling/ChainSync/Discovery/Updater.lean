import ChainSync.Discovery.Record
import ChainSync.Events
import ChainSync.Fork.Schedule
import ChainSync.Progress
set_option autoImplicit false

namespace ChainSync.Discovery

/-- Keeps the published fork id in line with the head of the local chain. -/
structure EntryUpdater where
  schedule : Fork.Schedule
  genesis : Hash
  record : NodeRecord
  /-- Its subscription to new heads. -/
  subscription : Nat
  hasEnded : Bool
  deriving Repr

namespace EntryUpdater

def entryAt (u : EntryUpdater) (head : UInt64) : Entry := .eth (u.schedule.forkId u.genesis head)

def update (u : EntryUpdater) (head : UInt64) : EntryUpdater :=
  { u with record := u.record.set (u.entryAt head) }

/-- The entry is written at once for the head given. -/
def start (schedule : Fork.Schedule) (genesis : Hash) (head : UInt64) (record : NodeRecord)
    (bus : EventBus ChainHead) : EntryUpdater × EventBus ChainHead :=
  let (id, bus) := bus.subscribe
  (update ⟨schedule, genesis, record, id, false⟩ head, bus)

def handle (u : EntryUpdater) (event : ChainHead) : EntryUpdater := u.update event.number

/-- Handles what has been published since; a closed bus ends the updater after its last event. -/
def step (u : EntryUpdater) (bus : EventBus ChainHead) : EntryUpdater × EventBus ChainHead :=
  if u.hasEnded then (u, bus)
  else
    let (events, bus) := bus.drain u.subscription
    let u := events.foldl handle u
    if bus.isOpen then (u, bus) else ({ u with hasEnded := true }, bus.unsubscribe u.subscription)

def cancel (u : EntryUpdater) (bus : EventBus ChainHead) : EntryUpdater × EventBus ChainHead :=
  ({ u with hasEnded := true }, bus.unsubscribe u.subscription)

end EntryUpdater
end ChainSync.Discovery
