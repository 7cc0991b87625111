import ChainSync.Session.Downloader
import ChainSync.Simulation.Network
set_option autoImplicit false

namespace ChainSync.Simulation

open Fetch

/-- A downloader with the local chain it serves. -/
structure Site where
  downloader : Downloader NodeDatabase
  ledger : Ledger
  /-- Calls made by script that have not been reported, with the instant of their return. -/
  late : List (Nat × Option Nat) := []
  /-- Its subscription to new chain heads. -/
  heads : Nat

namespace Site

/-- Inserts what was handed over, as long as anything is. The fuel bounds the insertions of one
instant: each one moves a session on. -/
def insertAll : Nat → Site → Site
  | 0, s => s
  | fuel + 1, s =>
    match s.downloader.handedOver? with
    | none => s
    | some insertion =>
      let (ledger, cancels, result) := s.ledger.insert insertion.batch
      let downloader := if cancels then s.downloader.cancel else s.downloader
      insertAll fuel { s with ledger, downloader := downloader.landed ledger.view result }

/-- Notes which calls have returned by now. -/
def noteReturns (s : Site) : Site :=
  { s with late := s.late.map fun (number, instant) =>
      match instant with
      | some ms => (number, some ms)
      | none =>
        (number, if (s.downloader.result? number).isSome then some s.downloader.hub.now else none) }

def maxInsertions : Nat := 1000000

def settle (s : Site) : Site := (insertAll maxInsertions s).noteReturns

def start (s : Site) (mode : SyncMode) (target : Option Nat) : Nat × Site :=
  let (number, downloader) := s.downloader.start s.ledger.view mode target
  (number, { s with downloader })

def signal (s : Site) (sig : Signal) : Site :=
  { s with downloader := s.downloader.signal s.ledger.view sig }.settle

instance : Process Site where
  hub s := s.downloader.hub
  setHub s hub := { s with downloader := { s.downloader with hub } }
  calls s :=
    match s.downloader.running? with
    | some (_, session) => session.stage.calls
    | none => []
  deadline? s :=
    match s.downloader.running? with
    | some (_, session) => session.stage.deadline? s.downloader.hub
    | none => none
  signal := signal
  cancel s := { s with downloader := s.downloader.cancel }
  start s mode target :=
    let (number, s) := s.start mode target
    { s with late := s.late ++ [(number, none)] }.settle

/-- A site with an open subscription to its heads. -/
def open? (config : Config) (filter : Option Fork.Filter) (engine : Engine) (hasStore : Bool)
    (database : NodeDatabase) (ledger : Ledger) : Except ConfigError Site :=
  match Downloader.create config ((PeerSet.ofConfig config).setForkFilter filter) database engine
      hasStore with
  | .error err => .error err
  | .ok downloader =>
    let (heads, bus) := downloader.hub.heads.subscribe
    .ok { downloader := { downloader with hub := { downloader.hub with heads := bus } }, ledger
          heads }

end Site

/-- One entry of a script of sessions. -/
inductive Order where
  | pause
  | session (mode : SyncMode) (target : Option Nat)
  /-- Sessions that supersede each other at once. -/
  | rivals (modes : List SyncMode) (target : Option Nat)

/-- What an entry of the script gave. -/
inductive Outcome where
  | paused
  | session (result : Except SyncError Unit)
  | rivals (results : List (Except SyncError Unit))

/-- What can be seen of a site after one entry of the script. -/
structure SiteReport where
  report : Report
  outcome : Outcome
  live : Nat
  progress : SyncProgress
  commits : List Commit
  stateCommits : List (List Hash)
  events : List ChainHead
  startedLate : List (Except SyncError Unit × Nat)
  head : Option (Header × Hash)

namespace World

/-- Starts sessions one right after the other. -/
def startAll (target : Option Nat) : List SyncMode → World Site → List Nat × World Site
  | [], w => ([], w)
  | mode :: rest, w =>
    let (number, site) := w.process.start mode target
    let (numbers, w) := startAll target rest { w with process := site }.deliverOutbox
    (number :: numbers, w)

/-- Starts sessions and waits until all of them have returned. -/
def await (w : World Site) (modes : List SyncMode) (target : Option Nat) :
    List (Except SyncError Unit) × World Site :=
  let (numbers, w) := startAll target modes w
  let w := w.signal .woken
  let w := runUntil
    (fun s => numbers.all fun n => (s.downloader.result? n).isSome) maxEvents w
  (numbers.filterMap w.process.downloader.result?, w)

def runOrder (w : World Site) : Order → Outcome × World Site
  | .pause => (.paused, w)
  | .session mode target =>
    match w.await [mode] target with
    | (result :: _, w) => (.session result, w)
    | ([], w) => (.paused, w)
  | .rivals modes target =>
    let (results, w) := w.await modes target
    (.rivals results, w)

/-- The calls by script that returned, in the order of their return. -/
def returned (s : Site) : List (Except SyncError Unit × Nat) :=
  (s.late.filterMap fun (number, instant) =>
    match instant, s.downloader.result? number with
    | some ms, some result => some (result, ms)
    | _, _ => none).mergeSort fun a b => a.2 ≤ b.2

/-- Tells what is new, and forgets it. -/
def look (w : World Site) (outcome : Outcome) : SiteReport × World Site :=
  let site := w.process
  let hub := site.downloader.hub
  let (events, heads) := hub.heads.drain site.heads
  let database := hub.board.store
  ({ report := w.report
     outcome
     live := hub.peers.size
     progress := site.downloader.progress
     commits := site.ledger.commits
     stateCommits := database.commits
     events
     startedLate := returned site
     head := site.ledger.head? },
   ({ w with process :=
       { site with
         ledger := { site.ledger with commits := [] }
         late := site.late.filter (·.2.isNone)
         downloader := { site.downloader with
           hub := { hub with
             heads, board := { hub.board with store := { database with commits := [] } } } } } }).clearLogs)

/-- Runs a script: each entry waits for a while first. -/
def runScript : List (Nat × Order) → World Site → List SiteReport
  | [], _ => []
  | (wait, order) :: rest, w =>
    let w := if wait = 0 then w else runTo (w.now + wait) maxEvents w
    let (outcome, w) := w.runOrder order
    let (report, w) := w.look outcome
    report :: runScript rest w

end World
end ChainSync.Simulation
