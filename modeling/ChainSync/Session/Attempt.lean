import ChainSync.Session.Stage
set_option autoImplicit false

namespace ChainSync

open Fetch

/-- What an attempt is given: the rules, the session's number, whether the session was cancelled when
the attempt last looked, and the local chain as it is now. -/
structure Surroundings where
  engine : Engine
  hasStore : Bool
  session : Nat
  cancelled : Bool
  view : ChainView
  /-- Whether the session is cancelled by the time that a batch could be handed over: this is looked
  at anew, under a lock that cancelling takes too. -/
  revoked : Bool := cancelled

/-- An attempt that waits for something, or one that is through. -/
abbrev Standing := Option (Attempt × Stage)

namespace Attempt

variable {σ : Type} [NodeStore σ]

abbrev Step (σ : Type) := Hub σ × Except SyncError Standing

omit [NodeStore σ] in
/-- Hands a batch over, unless the session is not wanted any more. -/
def commit (a : Attempt) (env : Surroundings) (h : Hub σ) (insertion : Insertion) : Step σ :=
  if env.revoked then (h, .error .cancelled)
  else (h.setPhase .committing, .ok (some (a, .inserting insertion)))

def assemble (headers : List Header) (bodies : List Body) : List Block :=
  headers.zipWith (fun header body => ⟨header, body⟩) bodies

omit [NodeStore σ] in
/-- The chain that leads to the advertised head must be as heavy as the master said. -/
def checkTotalDifficulty (a : Attempt) (env : Surroundings) (h : Hub σ) : Step σ :=
  if a.target ≠ a.master.info.head.toNat then (h, .ok none)
  else
    match env.view.totalDifficulty a.master.info.headHash with
    | .error err => (h, .error (.chain err))
    | .ok none => (h, .error (.unknownBlock a.master.info.headHash))
    | .ok (some total) =>
      if total.toNat < a.master.info.totalDifficulty.toNat then
        (h, .error (.peerFault a.master.id .headers ⟨a.target, 1⟩
          s!"advertised total difficulty {a.master.info.totalDifficulty.text} but the chain only reaches {total.text}"))
      else (h, .ok none)

omit [NodeStore σ] in
def bodiesDone (a : Attempt) (env : Surroundings) (h : Hub σ) (headers : List Header)
    (task : BlockFetch Body) : Step σ :=
  a.commit env h
    { category := .bodies, batch := .blocks (assemble headers task.output), headers
      deliveredBy := task.deliveredBy, pivotState := none, above := [] }

omit [NodeStore σ] in
def onBodies (a : Attempt) (env : Surroundings) (headers : List Header) :
    Run (BlockFetch Body) × Hub σ × Option (Except SyncError Unit) → Step σ
  | (run, h, none) => (h, .ok (some (a, .bodies headers run)))
  | (_, h, some (.error err)) => (h, .error err)
  | (run, h, some (.ok ())) => a.bodiesDone env h headers run.task

omit [NodeStore σ] in
/-- Fetches bodies for blocks that will be executed. -/
def importFull (a : Attempt) (env : Surroundings) (h : Hub σ) (headers : List Header) : Step σ :=
  let h := h.setPhase .fetchingBodiesAndReceipts
  let (task, progress) : BlockFetch Body × SyncProgress :=
    BlockFetch.begin env.session headers h.peers.config.maxBlockBodies.toNat h.board.progress
  a.onBodies env headers (Run.start task (h.setProgress fun _ => progress) env.cancelled)

omit [NodeStore σ] in
/-- A body that anyone delivered is blamed before the receipts of its block. -/
def bothDone (a : Attempt) (env : Surroundings) (h : Hub σ) (headers : List Header)
    (pivotState : Option Header) (above : List Header) (bodies : BlockFetch Body)
    (receipts : BlockFetch (List Receipt)) : Step σ :=
  a.commit env h
    { category := .receipts
      batch := .receipts (assemble headers bodies.output) receipts.output
      headers
      deliveredBy := bodies.deliveredBy.zipWith (fun body receipt => body.or receipt)
        receipts.deliveredBy
      pivotState
      above }

omit [NodeStore σ] in
def onBoth (a : Attempt) (env : Surroundings) (h : Hub σ) (headers : List Header)
    (pivotState : Option Header) (above : List Header) :
    Leg (BlockFetch Body) → Leg (BlockFetch (List Receipt)) → Step σ
  | .complete bodies, .complete receipts =>
    a.bothDone env h headers pivotState above bodies receipts
  | bodies, receipts =>
    (h, .ok (some (a, .bodiesAndReceipts headers pivotState above bodies receipts)))

/-- The leg that a run has become. -/
def legOf {τ : Type} :
    Run τ × Hub σ × Option (Except SyncError Unit) → Hub σ × Except SyncError (Leg τ)
  | (run, h, none) => (h, .ok (.running run))
  | (run, h, some (.ok ())) => (h, .ok (.complete run.task))
  | (_, h, some (.error err)) => (h, .error err)

omit [NodeStore σ] in
/-- Fetches bodies and receipts side by side, for blocks that are stored as they are. -/
def importFast (a : Attempt) (env : Surroundings) (h : Hub σ) (headers : List Header)
    (pivotState : Option Header) (above : List Header) : Step σ :=
  let h := h.setPhase .fetchingBodiesAndReceipts
  let (bodies, progress) : BlockFetch Body × SyncProgress :=
    BlockFetch.begin env.session headers h.peers.config.maxBlockBodies.toNat h.board.progress
  let (receipts, progress) : BlockFetch (List Receipt) × SyncProgress :=
    BlockFetch.begin env.session headers h.peers.config.maxReceipts.toNat progress
  match legOf (Run.start bodies (h.setProgress fun _ => progress) env.cancelled) with
  | (h, .error err) => (h, .error err)
  | (h, .ok bodies) =>
    match legOf (Run.start receipts h env.cancelled) with
    | (h, .error err) => (bodies.leave h, .error err)
    | (h, .ok receipts) => a.onBoth env h headers pivotState above bodies receipts

omit [NodeStore σ] in
/-- Sorts a complete segment of headers into batches. -/
def importSegment (a : Attempt) (env : Surroundings) (h : Hub σ) (headers : List Header) : Step σ :=
  match a.mode with
  | .light =>
    a.commit env h
      { category := .headers, batch := .headers headers, headers, deliveredBy := []
        pivotState := none, above := [] }
  | .full => a.importFull env h headers
  | .snap =>
    let pivot := a.pivot.getD a.target
    let below := headers.takeWhile fun x => decide (x.height ≤ pivot)
    let above := headers.dropWhile fun x => decide (x.height ≤ pivot)
    match below.getLast? with
    | some last =>
      a.importFast env h below (if last.height = pivot then some last else none) above
    | none => a.importFull env h above

omit [NodeStore σ] in
def onFill (a : Attempt) (env : Surroundings) :
    Run HeaderFill × Hub σ × Option (Except SyncError Unit) → Step σ
  | (run, h, none) => (h, .ok (some (a, .fill run)))
  | (_, h, some (.error err)) => (h, .error err)
  | (run, h, some (.ok ())) =>
    if run.task.released.isEmpty then a.checkTotalDifficulty env h
    else a.importSegment env h run.task.released

omit [NodeStore σ] in
/-- A skeleton up to the advertised head has to end in it. -/
def fillSkeleton (a : Attempt) (env : Surroundings) (h : Hub σ) (origin : Header) (stop : Nat)
    (skeleton : List Header) : Step σ :=
  if stop = a.master.info.head.toNat ∧
      skeleton.getLast?.map Header.hash ≠ some a.master.info.headHash then
    (h, .error (.peerFault a.master.id .headers ⟨stop, 1⟩
      "target header does not match the advertised head"))
  else
    a.onFill env (Run.start
      (.start env.session origin skeleton a.master.id env.engine
        h.peers.config.skeletonMismatchLimit.toNat)
      h env.cancelled)

omit [NodeStore σ] in
def onSkeleton (a : Attempt) (env : Surroundings) (origin : Header) (stop : Nat) :
    Hub σ × Except SyncError (SkeletonFetch ⊕ List Header) → Step σ
  | (h, .error err) => (h, .error err)
  | (h, .ok (.inl fetch)) => (h, .ok (some (a, .skeleton origin stop fetch)))
  | (h, .ok (.inr skeleton)) => a.fillSkeleton env h origin stop skeleton

omit [NodeStore σ] in
/-- Goes on behind `last`, until the target is reached. The end of the segment is a sum in 64
bits. -/
def nextSegment (a : Attempt) (env : Surroundings) (h : Hub σ) (last : Header) : Step σ :=
  if last.height < a.target then
    let config := h.peers.config
    let stop := min a.target (last.number + config.segmentLength).toNat
    a.onSkeleton env last stop
      (SkeletonFetch.begin (h.setPhase .fetchingHeaders) env.cancelled a.master last.height stop
        config.headerBatchSize.toNat)
  else a.checkTotalDifficulty env h

omit [NodeStore σ] in
/-- Continues a segment behind its pivot or behind its last batch. -/
def continueAbove (a : Attempt) (env : Surroundings) (h : Hub σ) (last : Header)
    (above : List Header) : Step σ :=
  if above.isEmpty then a.nextSegment env h last else a.importFull env h above

omit [NodeStore σ] in
/-- The state took too long: the rest is executed from where the chain stands. -/
def fallBack (a : Attempt) (env : Surroundings) (h : Hub σ) (pivot : Header) (above : List Header)
    (run : Run StateDownload) : Step σ :=
  let h := { run.leave h with metrics := h.metrics.addFallback }
  { a with mode := .full }.continueAbove env (h.setProgress ({ · with mode := .full })) pivot above

omit [NodeStore σ] in
def onState (a : Attempt) (env : Surroundings) (pivot : Header) (above : List Header)
    (expires : Nat) : Run StateDownload × Hub σ × Option (Except SyncError Unit) → Step σ
  | (run, h, none) =>
    if expires ≤ h.now then a.fallBack env h pivot above run
    else (h, .ok (some (a, .state pivot above run expires)))
  | (_, h, some (.error err)) => (h, .error err)
  | (_, h, some (.ok ())) => a.continueAbove env h pivot above

/-- Fetches the state of the pivot, for as long as that may take. -/
def fetchState (a : Attempt) (env : Surroundings) (h : Hub σ) (pivot : Header)
    (above : List Header) : Step σ :=
  if !env.hasStore then { a with mode := .full }.continueAbove env h pivot above
  else if env.cancelled then (h, .error .cancelled)
  else
    let h := h.setPhase .fetchingState
    let config := h.peers.config
    match StateDownload.start env.session pivot.stateRoot h.board.store
        config.stateCommitBatch.toNat with
    | .error err => (h, .error (.stateStore err))
    | .ok task =>
      a.onState env pivot above (h.now + config.maxStateFetch.ceilMillis)
        (Run.start task (h.setProgress task.report) env.cancelled)

/-- The local chain took the batch: everyone is told of the new head. -/
def accepted (a : Attempt) (env : Surroundings) (h : Hub σ) (i : Insertion) (last : Header) :
    Step σ :=
  let h := h.setProgress ({ · with current := last.height })
  let h := { h with
    peers := h.peers.setForkHead last.number
    heads := (h.heads.publish ⟨last.number, last.hash⟩).2 }
  match i.pivotState with
  | some pivot => a.fetchState env h pivot i.above
  | none => a.continueAbove env h last i.above

omit [NodeStore σ] in
/-- The local chain refused the batch: unless its database failed, whoever delivered the block at
fault never comes back. -/
def refused (h : Hub σ) (i : Insertion) (err : InsertError) : Step σ :=
  match err.error with
  | .store reason => (h, .error (.chain (.store reason)))
  | error =>
    let first := (i.headers.head?.map Header.height).getD 0
    let number := (i.headers[err.index]?.map Header.height).getD first
    let peer := (i.deliveredBy[err.index]?).join
    let h :=
      match peer with
      | some peer => h.setPeers (h.peers.blacklist peer)
      | none => h
    (h, .error (.validationFailure i.category ⟨number, 1⟩ peer error.message))

/-- The local chain has answered. -/
def landed (a : Attempt) (env : Surroundings) (h : Hub σ) (i : Insertion) :
    Except InsertError Unit → Step σ
  | .error err => refused h i err
  | .ok () =>
    match i.headers.getLast? with
    | some last => a.accepted env h i last
    | none => a.checkTotalDifficulty env h

omit [NodeStore σ] in
/-- Settles the pivot and starts counting anew from the common ancestor. -/
def fromAncestor (a : Attempt) (env : Surroundings) (h : Hub σ) (origin : Header) : Step σ :=
  let pivot := a.target - h.peers.config.pivotDistance.toNat
  let a : Attempt :=
    if a.mode = .snap then
      if pivot > origin.height then { a with pivot := some pivot }
      else { a with mode := .full, pivot := none }
    else { a with pivot := none }
  let h := h.setProgress fun p =>
    { mode := a.mode, phase := p.phase, origin := origin.height, current := origin.height
      target := a.target, pivot := a.pivot }
  a.nextSegment env h origin

omit [NodeStore σ] in
def onAncestor (a : Attempt) (env : Surroundings) :
    Hub σ × Except SyncError (AncestorSearch ⊕ Ancestor) → Step σ
  | (h, .error err) => (h, .error err)
  | (h, .ok (.inl search)) => (h, .ok (some (a, .ancestor search)))
  | (h, .ok (.inr ancestor)) => a.fromAncestor env h ancestor.header

/-- The best peer on our fork; better ones on other forks are dropped. The fuel is the number of
peers. -/
def selectMaster : Nat → PeerSet → PeerSet × Except SyncError SyncPeer
  | 0, peers => (peers, .error .noUsablePeers)
  | fuel + 1, peers =>
    match peers.best? with
    | none => (peers, .error .noUsablePeers)
    | some best =>
      if peers.isForkCompatible best then (peers, .ok best)
      else selectMaster fuel (peers.drop best.id)

omit [NodeStore σ] in
/-- Chooses a master and looks for the block to start from. -/
def begin (env : Surroundings) (mode : SyncMode) (target : Option Nat) (h : Hub σ) : Step σ :=
  let h := h.setPhase .selectingPeer
  let (peers, choice) := selectMaster (h.peers.peers.length + 1) h.peers
  let h := h.setPeers peers
  match choice with
  | .error err => (h, .error err)
  | .ok master =>
    let head := master.info.head.toNat
    let target := target.getD head
    if target > head then (h, .error (.invalidTarget target head))
    else
      let mode := if mode = .snap ∧ !env.hasStore then .full else mode
      let h := h.setPhase .negotiatingAncestor
      match env.view.currentHeader with
      | .error err => (h, .error (.chain err))
      | .ok localHead =>
        let a : Attempt := { mode, master, target, pivot := none }
        a.onAncestor env
          (AncestorSearch.begin h env.cancelled master localHead
            h.peers.config.maxForkAncestry.toNat)

omit [NodeStore σ] in
/-- Passes a signal to one leg and wakes the other, which may have events to see. -/
def stepLegs {τ υ : Type} [Workload τ] [Workload υ] [Receiver σ τ] [Receiver σ υ] (h : Hub σ)
    (cancelled : Bool) (forFirst forSecond : Signal) (first : Leg τ) (second : Leg υ) :
    Hub σ × Except SyncError (Leg τ × Leg υ) :=
  match stepLeg h forFirst first with
  | (h, .error err) => (second.leave h, .error err)
  | (h, .ok first) =>
    match stepLeg h forSecond second with
    | (h, .error err) => (first.leave h, .error err)
    | (h, .ok second) => (h, .ok (first, second))
where
  stepLeg {τ : Type} [Workload τ] [Receiver σ τ] (h : Hub σ) (signal : Signal) :
      Leg τ → Hub σ × Except SyncError (Leg τ)
    | .running run => legOf (run.step h cancelled signal)
    | .complete task => (h, .ok (.complete task))

omit [NodeStore σ] in
/-- Which leg a signal is for; the other one is only woken. -/
def shareSignal (h : Hub σ) {τ υ : Type} (first : Leg τ) (second : Leg υ) :
    Signal → Signal × Signal
  | .deadline =>
    if (first.deadline? h).any (· ≤ h.now) then (.deadline, .woken)
    else if (second.deadline? h).any (· ≤ h.now) then (.woken, .deadline)
    else (.woken, .woken)
  | .woken => (.woken, .woken)
  | .ended ticket ending =>
    if first.calls.any (·.ticket == ticket) then (.ended ticket ending, .woken)
    else (.woken, .ended ticket ending)

omit [NodeStore σ] in
def stepBoth (a : Attempt) (env : Surroundings) (h : Hub σ) (headers : List Header)
    (pivotState : Option Header) (above : List Header) (bodies : Leg (BlockFetch Body))
    (receipts : Leg (BlockFetch (List Receipt))) (signal : Signal) : Step σ :=
  let (forBodies, forReceipts) := shareSignal h bodies receipts signal
  match stepLegs h env.cancelled forBodies forReceipts bodies receipts with
  | (h, .error err) => (h, .error err)
  | (h, .ok (bodies, receipts)) =>
    match stepLegs h env.cancelled .woken .woken bodies receipts with
    | (h, .error err) => (h, .error err)
    | (h, .ok (bodies, receipts)) => a.onBoth env h headers pivotState above bodies receipts

/-- Takes one signal in. -/
def step (a : Attempt) (env : Surroundings) (h : Hub σ) (stage : Stage) (signal : Signal) : Step σ :=
  match stage with
  | .ancestor search => a.onAncestor env (search.step h env.cancelled env.view signal)
  | .skeleton origin stop fetch =>
    a.onSkeleton env origin stop (fetch.step h env.cancelled signal)
  | .fill run => a.onFill env (run.step h env.cancelled signal)
  | .bodies headers run => a.onBodies env headers (run.step h env.cancelled signal)
  | .bodiesAndReceipts headers pivotState above bodies receipts =>
    a.stepBoth env h headers pivotState above bodies receipts signal
  | .state pivot above run expires =>
    match signal with
    | .deadline =>
      if (run.deadline? h).any (· ≤ h.now) then
        a.onState env pivot above expires (run.step h env.cancelled .deadline)
      else a.onState env pivot above expires (run, h, none)
    | signal => a.onState env pivot above expires (run.step h env.cancelled signal)
  | .inserting insertion => (h, .ok (some (a, .inserting insertion)))

end Attempt
end ChainSync
