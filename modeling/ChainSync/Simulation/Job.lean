import ChainSync.Session.Stage
import ChainSync.Simulation.Network
set_option autoImplicit false

namespace ChainSync.Simulation

open Fetch

/-- A part of a session that runs by itself. -/
inductive Job where
  | query (query : HeaderQuery)
  | skeleton (fetch : SkeletonFetch)
  | ancestor (ledger : Ledger) (search : AncestorSearch)
  | bodies (run : Run (BlockFetch Body))
  | receipts (run : Run (BlockFetch (List Receipt)))
  | fill (run : Run HeaderFill)
  | states (run : Run StateDownload)

/-- What a job comes to. -/
inductive Product where
  | headers (headers : List Header)
  | ancestor (ancestor : Ancestor)
  | bodies (task : BlockFetch Body)
  | receipts (task : BlockFetch (List Receipt))
  | states (task : StateDownload)

/-- A job under way, or its result. -/
structure JobProcess where
  hub : Hub NodeDatabase
  cancelled : Bool
  state : Job ⊕ Except SyncError Product

namespace JobProcess

abbrev State := Hub NodeDatabase × (Job ⊕ Except SyncError Product)

def ofRun {τ : Type} (job : Run τ → Job) (product : τ → Product) :
    Run τ × Hub NodeDatabase × Option (Except SyncError Unit) → State
  | (run, h, none) => (h, .inl (job run))
  | (_, h, some (.error err)) => (h, .inr (.error err))
  | (run, h, some (.ok ())) => (h, .inr (.ok (product run.task)))

def ofStep {α β : Type} (job : α → Job) (product : β → Product) :
    Hub NodeDatabase × Except SyncError (α ⊕ β) → State
  | (h, .error err) => (h, .inr (.error err))
  | (h, .ok (.inl a)) => (h, .inl (job a))
  | (h, .ok (.inr b)) => (h, .inr (.ok (product b)))

def filled (f : HeaderFill) : Product := .headers f.released

def step (h : Hub NodeDatabase) (cancelled : Bool) (signal : Signal) : Job → State
  | .query query =>
    match query.step h cancelled signal with
    | (h, none) => (h, .inl (.query query))
    | (h, some result) => (h, .inr (result.map .headers))
  | .skeleton fetch => ofStep .skeleton .headers (fetch.step h cancelled signal)
  | .ancestor ledger search =>
    ofStep (.ancestor ledger) .ancestor (search.step h cancelled ledger.view signal)
  | .bodies run => ofRun .bodies .bodies (run.step h cancelled signal)
  | .receipts run => ofRun .receipts .receipts (run.step h cancelled signal)
  | .fill run => ofRun .fill filled (run.step h cancelled signal)
  | .states run => ofRun .states .states (run.step h cancelled signal)

def calls : Job → List Call
  | .query query => [query.call]
  | .skeleton fetch => [fetch.query.call]
  | .ancestor _ search => [search.query.call]
  | .bodies run => run.calls
  | .receipts run => run.calls
  | .fill run => run.calls
  | .states run => run.calls

def deadline? (h : Hub NodeDatabase) : Job → Option Nat
  | .query _ | .skeleton _ | .ancestor .. => none
  | .bodies run => run.deadline? h
  | .receipts run => run.deadline? h
  | .fill run => run.deadline? h
  | .states run => run.deadline? h

def enter (cancelled : Bool) : State → JobProcess
  | (h, state) => { hub := h.rest, cancelled, state }

def result? (p : JobProcess) : Option (Except SyncError Product) :=
  match p.state with
  | .inl _ => none
  | .inr result => some result

instance : Process JobProcess where
  hub p := p.hub
  setHub p hub := { p with hub }
  calls p :=
    match p.state with
    | .inl job => calls job
    | .inr _ => []
  deadline? p :=
    match p.state with
    | .inl job => deadline? p.hub job
    | .inr _ => none
  signal p s :=
    match p.state with
    | .inl job => enter p.cancelled (step p.hub p.cancelled s job)
    | .inr _ => p
  cancel p := { p with cancelled := true }
  start p _ _ := p

/-- A process that has not begun. -/
def idle (config : Config) (filter : Option Fork.Filter) (database : NodeDatabase)
    (cancelled : Bool) : JobProcess :=
  { hub := { peers := (PeerSet.ofConfig config).setForkFilter filter, board := ⟨{}, database⟩ }
    cancelled
    state := .inr (.ok (.headers [])) }

end JobProcess

namespace World

/-- Begins a job and runs it to its end. -/
def perform (w : World JobProcess) (first : Hub NodeDatabase → Bool → JobProcess.State) :
    World JobProcess :=
  runUntil (·.result?.isSome) maxEvents
    { w with process :=
        JobProcess.enter w.process.cancelled (first w.process.hub w.process.cancelled) }.deliverOutbox

end World
end ChainSync.Simulation
