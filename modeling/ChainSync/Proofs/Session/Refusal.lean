import ChainSync.Proofs.Fetch.Supply
import ChainSync.Proofs.Peer.Standing
import ChainSync.Proofs.State.Store
set_option autoImplicit false

/-!
Whom a block that the local chain refuses is put down to. An import keeps track of who sent what
from the first request to the verdict, and it bars nobody on its way.
-/

namespace ChainSync

open Fetch

namespace PeerSet

theorem blacklisted_beginRequest {s s' : PeerSet} {id : PeerId} {c : Category} {slot : Slot}
    (begun : s.beginRequest id c = .ok (slot, s')) : s'.blacklisted = s.blacklisted := by
  obtain ⟨-, -, rfl⟩ := beginRequest_ok begun
  rfl

theorem blacklisted_recordTimeout (s : PeerSet) (id : PeerId) (c : Category) :
    (s.recordTimeout id c).2.blacklisted = s.blacklisted := by
  rcases s.recordTimeout_cases id c with same | same | same <;> rw [same]
  · rfl
  · exact blacklisted_drop ..

/-- Where one item is the most that may be asked for, speed is of no account. -/
theorem capacity_eq_ite : @capacity =
    fun s id c => if s.config.maxItems c ≤ 1 then 1 else s.capacity id c := by
  funext s id c
  split
  · unfold capacity
    split
    · rfl
    · omega
  · rfl

end PeerSet

namespace Fetch

variable {σ τ : Type}

/-- Nobody is barred, and no ticket is given out again. -/
structure Hub.Spares (h h' : Hub σ) : Prop where
  blacklisted : h'.peers.blacklisted = h.peers.blacklisted
  tickets : h.nextTicket ≤ h'.nextTicket

namespace Hub.Spares

variable {h h' h'' : Hub σ}

theorem refl (h : Hub σ) : h.Spares h := ⟨rfl, Nat.le_refl _⟩

theorem trans (a : h.Spares h') (b : h'.Spares h'') : h.Spares h'' :=
  ⟨b.blacklisted.trans a.blacklisted, a.tickets.trans b.tickets⟩

end Hub.Spares

namespace Run

variable [Workload τ]

theorem conduct_spares (h : Hub σ) : Conduct fun (_ : Run τ) h' => h.Spares h' where
  offer {r h'} live peer spares := by
    rcases r.offer_cases h' live peer with
      ⟨same, -⟩ | ⟨slot, peers, begun, ⟨same, -⟩ | ⟨capacity, a, task, -, same⟩⟩ <;> rw [same]
    · exact spares
    · have barred := PeerSet.blacklisted_beginRequest begun
      exact spares.trans ⟨barred, Nat.le_refl _⟩
    · have barred := PeerSet.blacklisted_beginRequest begun
      exact spares.trans ⟨barred, Nat.le_succ _⟩
  awaitPeers {r h'} spares := by
    obtain ⟨since, throttle, same⟩ := r.awaitPeers_eq h'
    rw [same]
    exact spares.trans ⟨rfl, Nat.le_refl _⟩
  noteEvent _ _ spares := spares.trans ⟨rfl, Nat.le_refl _⟩
  leave spares := spares.trans ⟨rfl, Nat.le_refl _⟩

omit [Workload τ] in
theorem judge_spares (h : Hub σ) (e : Errand) (delivery : Delivery) :
    h.Spares (judge h e delivery) := by
  cases delivery with
  | accepted items =>
    unfold judge
    dsimp only
    split
    · exact ⟨PeerSet.blacklisted_recordTimeout .., Nat.le_refl _⟩
    · exact ⟨rfl, Nat.le_refl _⟩
  | stale items | disputed items reason => exact ⟨rfl, Nat.le_refl _⟩
  | rejected accepted dropped reason => exact ⟨PeerSet.blacklisted_drop .., Nat.le_refl _⟩

variable [Receiver σ τ]

theorem conclude_spares (r : Run τ) (h : Hub σ) (e : Errand) (ending : Ending) :
    h.Spares (r.conclude h e ending).2.1 := by
  cases ending with
  | answered payload =>
    simp only [conclude]
    generalize Receiver.deliver r.task h.board e.id e.call.peer payload = out
    obtain ⟨task, board, result⟩ := out
    cases result with
    | error err => exact ⟨rfl, Nat.le_refl _⟩
    | ok delivery =>
      have told : h.Spares { h with board } := ⟨rfl, Nat.le_refl _⟩
      exact told.trans (judge_spares ..)
  | timedOut => exact ⟨PeerSet.blacklisted_recordTimeout .., Nat.le_refl _⟩
  | failed error => exact ⟨PeerSet.blacklisted_drop .., Nat.le_refl _⟩

theorem step_spares (r : Run τ) (h : Hub σ) (cancelled : Bool) (signal : Signal) :
    h.Spares (r.step h cancelled signal).2.1 := by
  refine (step_reached (conduct_spares h) cancelled signal (fun _ => .refl h) fun e ending _ =>
    ?_).kept
  have finished : h.Spares (h.finish e.call) := ⟨rfl, Nat.le_refl _⟩
  exact finished.trans (conclude_spares ..)

omit [Receiver σ τ] in
theorem start_spares (task : τ) (h : Hub σ) (cancelled : Bool) :
    h.Spares (Run.start task h cancelled).2.1 :=
  (start_reached (conduct_spares h) cancelled ⟨rfl, Nat.le_refl _⟩).kept

end Run
end Fetch

/-- What a leg takes in at a signal. -/
def Leg.intake {δ : Type} [BlockData δ] (signal : Signal) : Leg (BlockFetch δ) → List (Intake δ)
  | .running run => run.intake signal
  | .complete _ => []

/-- A fetch under way, or one that has all, and what it has from whom. -/
def Leg.Fed {δ : Type} [BlockData δ] (headers : List Header) (log : List (Intake δ)) (next : Nat) :
    Leg (BlockFetch δ) → Prop
  | .running run => BlockFetch.Supplied headers log run.task ∧ run.Books next
  | .complete task => BlockFetch.Supplied headers log task ∧ task.isDone

section Leg

variable {δ : Type} [BlockData δ] {headers : List Header} {log : List (Intake δ)}
  {leg : Leg (BlockFetch δ)}

theorem Leg.intake_woken : leg.intake .woken = [] := by
  cases leg <;> rfl

theorem Leg.Fed.mono {next next' : Nat} (fed : leg.Fed headers log next) (le : next ≤ next') :
    leg.Fed headers log next' := by
  cases leg with
  | running run => exact ⟨fed.1, fed.2.mono le⟩
  | complete task => exact fed

end Leg

/-- A batch of this kind, put together of what these answers brought. -/
inductive Insertion.Sourced (headers : List Header) (bodies : List (Intake Body))
    (receipts : List (Intake (List Receipt))) : Category → Insertion → Prop where
  | full {task : BlockFetch Body} (supplied : BlockFetch.Supplied headers bodies task)
      (done : task.isDone) :
    Sourced headers bodies receipts .bodies
      { category := .bodies, batch := .blocks (Attempt.assemble headers task.output), headers
        deliveredBy := task.deliveredBy, pivotState := none, above := [] }
  | fast {task : BlockFetch Body} {task' : BlockFetch (List Receipt)} {pivotState : Option Header}
      {above : List Header} (supplied : BlockFetch.Supplied headers bodies task)
      (done : task.isDone) (supplied' : BlockFetch.Supplied headers receipts task')
      (done' : task'.isDone) :
    Sourced headers bodies receipts .receipts
      { category := .receipts
        batch := .receipts (Attempt.assemble headers task.output) task'.output, headers
        deliveredBy := task.deliveredBy.zipWith (fun body receipt => body.or receipt)
          task'.deliveredBy
        pivotState, above }

namespace Attempt

variable {σ : Type} {headers above : List Header} {kind : Category}
  {bodies : List (Intake Body)} {receipts : List (Intake (List Receipt))}
  {pivotState : Option Header}

/-- What an import of the headers waits for, unless it has failed. -/
def Awaits (headers : List Header) (kind : Category) (bodies : List (Intake Body))
    (receipts : List (Intake (List Receipt))) (next : Nat) : Except SyncError Standing → Prop
  | .ok (some (_, .bodies hs run)) =>
    kind = .bodies ∧ hs = headers ∧ (Leg.running run).Fed headers bodies next
  | .ok (some (_, .bodiesAndReceipts hs _ _ first second)) =>
    kind = .receipts ∧ hs = headers ∧ first.Fed headers bodies next ∧
      second.Fed headers receipts next
  | .ok (some (_, .inserting i)) => i.Sourced headers bodies receipts kind
  | .ok _ => False
  | .error _ => True

/-- What a step of an import comes to. -/
structure Feeds (headers : List Header) (kind : Category) (bodies : List (Intake Body))
    (receipts : List (Intake (List Receipt))) (h : Hub σ) (out : Step σ) : Prop where
  spares : h.Spares out.1
  awaits : Awaits headers kind bodies receipts out.1.nextTicket out.2

theorem Feeds.after {h h' : Hub σ} {out : Step σ}
    (feeds : Feeds headers kind bodies receipts h' out) (spares : h.Spares h') :
    Feeds headers kind bodies receipts h out :=
  ⟨spares.trans feeds.spares, feeds.awaits⟩

variable {a : Attempt} {env : Surroundings} {h : Hub σ}

theorem commit_feeds {i : Insertion} (sourced : i.Sourced headers bodies receipts kind) :
    Feeds headers kind bodies receipts h (a.commit env h i) := by
  unfold commit
  split
  · exact ⟨.refl h, trivial⟩
  · exact ⟨⟨rfl, Nat.le_refl _⟩, sourced⟩

section Runs

variable {δ : Type} [BlockData δ] {log : List (Intake δ)}

/-- A run of a fetch goes on, or has come to its end. -/
structure RunFed (headers : List Header) (log : List (Intake δ)) (h : Hub σ)
    (out : Run (BlockFetch δ) × Hub σ × Option (Except SyncError Unit)) : Prop where
  reached : Run.Reached (fun r (h' : Hub σ) =>
    BlockFetch.Supplied headers log r.task ∧ r.Books h'.nextTicket) out
  spares : h.Spares out.2.1

theorem start_fed (session : Nat) (headers : List Header) (size : Nat) (h : Hub σ)
    (cancelled : Bool) :
    RunFed headers [] h (Run.start (.start session headers size : BlockFetch δ) h cancelled) where
  reached := Run.start_reached ((BlockFetch.conduct_supplied σ headers []).and
    (Run.conduct_books σ _)) cancelled
    ⟨BlockFetch.supplied_start session headers size, Run.books_opened (fun _ => rfl) h⟩
  spares := Run.start_spares _ h cancelled

theorem step_fed {run : Run (BlockFetch δ)} (fed : (Leg.running run).Fed headers log h.nextTicket)
    (cancelled : Bool) (signal : Signal) :
    RunFed headers (log ++ run.intake signal) h (run.step h cancelled signal) where
  reached := BlockFetch.supplied_step fed.1 fed.2 cancelled signal
  spares := Run.step_spares run h cancelled signal

/-- A leg goes on or has come to its end, unless it failed. -/
structure LegFed (headers : List Header) (log : List (Intake δ)) (h : Hub σ)
    (out : Hub σ × Except SyncError (Leg (BlockFetch δ))) : Prop where
  spares : h.Spares out.1
  fed : ∀ leg, out.2 = .ok leg → leg.Fed headers log out.1.nextTicket

theorem legOf_fed {out : Run (BlockFetch δ) × Hub σ × Option (Except SyncError Unit)}
    (run : RunFed headers log h out) : LegFed headers log h (legOf out) := by
  obtain ⟨r, h', _ | err | _⟩ := out
  · refine ⟨run.spares, ?_⟩
    rintro _ ⟨⟩
    exact run.reached.kept
  · exact ⟨run.spares, by simp [legOf]⟩
  · refine ⟨run.spares, ?_⟩
    rintro _ ⟨⟩
    exact ⟨run.reached.kept.1, run.reached.done rfl⟩

theorem stepLeg_fed {leg : Leg (BlockFetch δ)} (fed : leg.Fed headers log h.nextTicket)
    (signal : Signal) (cancelled : Bool) :
    LegFed headers (log ++ leg.intake signal) h (stepLegs.stepLeg cancelled h signal leg) := by
  cases leg with
  | running run => exact legOf_fed (step_fed fed cancelled signal)
  | complete task =>
    refine ⟨.refl h, ?_⟩
    rintro _ ⟨⟩
    rw [Leg.intake, List.append_nil]
    exact fed

end Runs

section Both

variable {first : Leg (BlockFetch Body)} {second : Leg (BlockFetch (List Receipt))}

theorem leave_spares {τ : Type} (h : Hub σ) (leg : Leg τ) : h.Spares (leg.leave h) := by
  cases leg with
  | running run => exact ⟨rfl, Nat.le_refl _⟩
  | complete task => exact .refl h

/-- Both legs go on or have come to their ends, unless one failed. -/
structure LegsFed (headers : List Header) (bodies : List (Intake Body))
    (receipts : List (Intake (List Receipt))) (h : Hub σ)
    (out : Hub σ × Except SyncError (Leg (BlockFetch Body) × Leg (BlockFetch (List Receipt)))) :
    Prop where
  spares : h.Spares out.1
  fed : ∀ first second, out.2 = .ok (first, second) →
    first.Fed headers bodies out.1.nextTicket ∧ second.Fed headers receipts out.1.nextTicket

theorem stepLegs_fed (fed : first.Fed headers bodies h.nextTicket)
    (fed' : second.Fed headers receipts h.nextTicket) (cancelled : Bool)
    (forFirst forSecond : Signal) :
    LegsFed headers (bodies ++ first.intake forFirst) (receipts ++ second.intake forSecond) h
      (stepLegs h cancelled forFirst forSecond first second) := by
  have one := stepLeg_fed fed forFirst cancelled
  unfold stepLegs
  generalize stepLegs.stepLeg cancelled h forFirst first = out at one
  obtain ⟨h', result⟩ := out
  cases result with
  | error err => exact ⟨one.spares.trans (leave_spares ..), by simp⟩
  | ok leg =>
    have two := stepLeg_fed (fed'.mono one.spares.tickets) forSecond cancelled
    dsimp only
    generalize stepLegs.stepLeg cancelled h' forSecond second = out at two
    obtain ⟨h'', result⟩ := out
    cases result with
    | error err => exact ⟨(one.spares.trans two.spares).trans (leave_spares ..), by simp⟩
    | ok leg' =>
      refine ⟨one.spares.trans two.spares, ?_⟩
      rintro _ _ ⟨⟩
      exact ⟨(one.fed leg rfl).mono two.spares.tickets, two.fed leg' rfl⟩

theorem onBoth_feeds (fed : first.Fed headers bodies h.nextTicket)
    (fed' : second.Fed headers receipts h.nextTicket) :
    Feeds headers .receipts bodies receipts h
      (a.onBoth env h headers pivotState above first second) := by
  unfold onBoth
  split
  · exact commit_feeds (.fast fed.1 fed.2 fed'.1 fed'.2)
  · exact ⟨.refl h, rfl, rfl, fed, fed'⟩

theorem stepBoth_feeds (fed : first.Fed headers bodies h.nextTicket)
    (fed' : second.Fed headers receipts h.nextTicket) (signal : Signal) :
    Feeds headers .receipts (bodies ++ first.intake (shareSignal h first second signal).1)
      (receipts ++ second.intake (shareSignal h first second signal).2) h
      (a.stepBoth env h headers pivotState above first second signal) := by
  have one := stepLegs_fed fed fed' env.cancelled (shareSignal h first second signal).1
    (shareSignal h first second signal).2
  unfold stepBoth
  dsimp only
  generalize stepLegs h env.cancelled (shareSignal h first second signal).1
    (shareSignal h first second signal).2 first second = out at one
  obtain ⟨h', result⟩ := out
  cases result with
  | error err => exact ⟨one.spares, trivial⟩
  | ok legs =>
    obtain ⟨fed, fed'⟩ := one.fed legs.1 legs.2 rfl
    -- the second time neither leg is told of an answer
    have two := stepLegs_fed fed fed' env.cancelled .woken .woken
    simp only [Leg.intake_woken, List.append_nil] at two
    dsimp only
    generalize stepLegs h' env.cancelled .woken .woken legs.1 legs.2 = out at two
    obtain ⟨h'', result⟩ := out
    have spares := one.spares.trans two.spares
    cases result with
    | error err => exact ⟨spares, trivial⟩
    | ok legs' =>
      obtain ⟨fed, fed'⟩ := two.fed legs'.1 legs'.2 rfl
      exact (onBoth_feeds fed fed').after spares

theorem onBodies_feeds {out : Run (BlockFetch Body) × Hub σ × Option (Except SyncError Unit)}
    (run : RunFed headers bodies h out) :
    Feeds headers .bodies bodies receipts h (a.onBodies env headers out) := by
  obtain ⟨r, h', _ | err | _⟩ := out
  · exact ⟨run.spares, rfl, rfl, run.reached.kept⟩
  · exact ⟨run.spares, trivial⟩
  · exact (commit_feeds (.full run.reached.kept.1 (run.reached.done rfl))).after run.spares

theorem importFull_feeds (a : Attempt) (env : Surroundings) (h : Hub σ) (headers : List Header) :
    Feeds headers .bodies [] receipts h (a.importFull env h headers) :=
  (onBodies_feeds (start_fed ..)).after ⟨rfl, Nat.le_refl _⟩

theorem startBoth_feeds (session bodySize receiptSize : Nat) :
    Feeds headers .receipts [] [] h
      (match legOf (Run.start (.start session headers bodySize : BlockFetch Body) h
          env.cancelled) with
      | (h, .error err) => (h, .error err)
      | (h, .ok bodies) =>
        match legOf (Run.start (.start session headers receiptSize : BlockFetch (List Receipt)) h
            env.cancelled) with
        | (h, .error err) => (bodies.leave h, .error err)
        | (h, .ok receipts) => a.onBoth env h headers pivotState above bodies receipts) := by
  have one := legOf_fed (start_fed (δ := Body) session headers bodySize h env.cancelled)
  generalize legOf (Run.start (BlockFetch.start session headers bodySize : BlockFetch Body) h
    env.cancelled) = out at one
  obtain ⟨h₁, result⟩ := out
  cases result with
  | error err => exact ⟨one.spares, trivial⟩
  | ok first =>
    have two := legOf_fed (start_fed (δ := List Receipt) session headers receiptSize h₁
      env.cancelled)
    dsimp only
    generalize legOf (Run.start (BlockFetch.start session headers receiptSize :
      BlockFetch (List Receipt)) h₁ env.cancelled) = out at two
    obtain ⟨h₂, result⟩ := out
    have spares := one.spares.trans two.spares
    cases result with
    | error err => exact ⟨spares.trans (leave_spares ..), trivial⟩
    | ok second =>
      have fed := (one.fed first rfl).mono two.spares.tickets
      exact (onBoth_feeds fed (two.fed second rfl)).after spares

theorem importFast_feeds (a : Attempt) (env : Surroundings) (h : Hub σ) (headers : List Header)
    (pivotState : Option Header) (above : List Header) :
    Feeds headers .receipts [] [] h (a.importFast env h headers pivotState above) :=
  (startBoth_feeds ..).after ⟨rfl, Nat.le_refl _⟩

end Both

end Attempt

/-- Headers for which data is fetched, up to the verdict of the local chain. -/
structure Import (σ : Type) where
  hub : Hub σ
  standing : Except SyncError Standing
  /-- The answers that brought bodies, and those that brought receipts. -/
  bodies : List (Intake Body)
  receipts : List (Intake (List Receipt))

namespace Import

variable {σ : Type}

/-- What goes on until the batch is handed over. -/
inductive Op (σ : Type) where
  | signal (env : Surroundings) (signal : Signal)
  /-- Time passes, peers come and go, and others send requests. -/
  | meanwhile (hub : Hub σ)

/-- Blocks that will be executed. -/
def full (a : Attempt) (env : Surroundings) (h : Hub σ) (headers : List Header) : Import σ :=
  let (hub, standing) := a.importFull env h headers
  { hub, standing, bodies := [], receipts := [] }

/-- Blocks that are stored as they are. -/
def fast (a : Attempt) (env : Surroundings) (h : Hub σ) (headers : List Header)
    (pivotState : Option Header) (above : List Header) : Import σ :=
  let (hub, standing) := a.importFast env h headers pivotState above
  { hub, standing, bodies := [], receipts := [] }

def takes (h : Hub σ) (signal : Signal) : Stage → List (Intake Body) × List (Intake (List Receipt))
  | .bodies _ run => (run.intake signal, [])
  | .bodiesAndReceipts _ _ _ bodies receipts =>
    let (forBodies, forReceipts) := Attempt.shareSignal h bodies receipts signal
    (bodies.intake forBodies, receipts.intake forReceipts)
  | _ => ([], [])

variable [NodeStore σ]

/-- An import that has failed does not go on, and tickets are not given out again. -/
def apply (c : Import σ) : Op σ → Import σ
  | .signal env signal =>
    match c.standing with
    | .ok (some (a, stage)) =>
      let (hub, standing) := a.step env c.hub stage signal
      let (bodies, receipts) := takes c.hub signal stage
      { hub, standing, bodies := c.bodies ++ bodies, receipts := c.receipts ++ receipts }
    | _ => c
  | .meanwhile hub => { c with hub := { hub with nextTicket := max c.hub.nextTicket hub.nextTicket } }

def run (c : Import σ) (ops : List (Op σ)) : Import σ := ops.foldl apply c

omit [NodeStore σ] in
/-- The batch that the local chain has yet to answer for. -/
def handed? (c : Import σ) : Option Insertion :=
  match c.standing with
  | .ok (some (_, .inserting i)) => some i
  | _ => none

end Import

namespace Attempt

variable {σ : Type} {headers : List Header} {kind : Category} {bodies : List (Intake Body)}
  {receipts : List (Intake (List Receipt))}

theorem Awaits.mono {next next' : Nat} {standing : Except SyncError Standing}
    (awaits : Awaits headers kind bodies receipts next standing) (le : next ≤ next') :
    Awaits headers kind bodies receipts next' standing := by
  rcases standing with err | _ | ⟨a, stage⟩
  · trivial
  · exact awaits
  · cases stage with
    | bodies hs run =>
      obtain ⟨rfl, rfl, fed⟩ := awaits
      exact ⟨rfl, rfl, fed.mono le⟩
    | bodiesAndReceipts hs pivotState above first second =>
      obtain ⟨rfl, rfl, fed, fed'⟩ := awaits
      exact ⟨rfl, rfl, fed.mono le, fed'.mono le⟩
    | inserting i => exact awaits
    | ancestor | skeleton | fill | state => exact awaits

theorem step_feeds [NodeStore σ] {a : Attempt} {env : Surroundings} {h : Hub σ} {stage : Stage}
    (awaits : Awaits headers kind bodies receipts h.nextTicket (.ok (some (a, stage))))
    (signal : Signal) :
    Feeds headers kind (bodies ++ (Import.takes h signal stage).1)
      (receipts ++ (Import.takes h signal stage).2) h (a.step env h stage signal) := by
  cases stage with
  | bodies hs run =>
    obtain ⟨rfl, rfl, fed⟩ := awaits
    exact onBodies_feeds (step_fed fed env.cancelled signal)
  | bodiesAndReceipts hs pivotState above first second =>
    obtain ⟨rfl, rfl, fed, fed'⟩ := awaits
    exact stepBoth_feeds fed fed' signal
  | inserting i =>
    simp only [Import.takes, List.append_nil]
    exact ⟨.refl h, awaits⟩
  | ancestor | skeleton | fill | state => exact awaits.elim

/-- The verdict on a refused block, unless the database failed. -/
theorem refused_at {h : Hub σ} {i : Insertion} {err : InsertError} {header : Header}
    {who : Option PeerId} (other : ∀ reason, err.error ≠ .store reason)
    (at' : i.headers[err.index]? = some header) (by' : i.deliveredBy[err.index]? = some who) :
    refused h i err = (who.elim h fun peer => h.setPeers (h.peers.blacklist peer),
      .error (.validationFailure i.category ⟨header.height, 1⟩ who err.error.message)) := by
  unfold refused
  split
  · rename_i reason failed
    exact absurd failed (other reason)
  · simp only [at', by', Option.map_some, Option.getD_some, Option.join_some]
    cases who <;> rfl

end Attempt

namespace Import

variable {σ : Type}

/-- Whom a block of a batch is put down to: whoever sent its body, or else, where receipts were
fetched as well, whoever sent those. -/
inductive Verdict (headers : List Header) (c : Import σ) (batch : Batch) (n : Nat)
    (header : Header) : Category → Option PeerId → Prop where
  | full {blocks : List Block} {body : Body} {who : Option PeerId} (handed : batch = .blocks blocks)
      (block : blocks[n]? = some ⟨header, body⟩)
      (credit : Intake.Credit headers c.bodies n body who) :
    Verdict headers c batch n header .bodies who
  | fast {blocks : List Block} {receipts : List (List Receipt)} {body : Body}
      {items : List Receipt} {who who' : Option PeerId} (handed : batch = .receipts blocks receipts)
      (block : blocks[n]? = some ⟨header, body⟩) (stored : receipts[n]? = some items)
      (credit : Intake.Credit headers c.bodies n body who)
      (credit' : Intake.Credit headers c.receipts n items who') :
    Verdict headers c batch n header .receipts (who.or who')

theorem verdict_of_sourced {headers : List Header} {c : Import σ} {kind : Category} {i : Insertion}
    (sourced : i.Sourced headers c.bodies c.receipts kind) {n : Nat} {header : Header}
    (at' : headers[n]? = some header) :
    ∃ who, i.headers = headers ∧ i.category = kind ∧ i.deliveredBy[n]? = some who ∧
      c.Verdict headers i.batch n header kind who := by
  -- positions of the batch are positions of the headers, not of what was asked for
  cases sourced with
  | @full task supplied done =>
    obtain ⟨body, who, output, by', credit⟩ := supplied.credit done at'
    refine ⟨who, rfl, rfl, by', .full rfl ?_ credit⟩
    simp [Attempt.assemble, List.getElem?_zipWith, at', output]
  | @fast task task' pivotState above supplied done supplied' done' =>
    obtain ⟨body, who, output, by', credit⟩ := supplied.credit done at'
    obtain ⟨items, who', output', by'', credit'⟩ := supplied'.credit done' at'
    refine ⟨who.or who', rfl, rfl, ?_, .fast rfl ?_ output' credit credit'⟩
    · simp [List.getElem?_zipWith, by', by'']
    · simp [Attempt.assemble, List.getElem?_zipWith, at', output]

variable [NodeStore σ]

/-- What an import of the headers comes to at the hands of the local chain. -/
structure Fair (headers : List Header) (kind : Category) (c : Import σ) : Prop where
  /-- Whatever the import is told, and be it cancelled, nobody is barred. -/
  spares : ∀ env signal,
    (c.apply (.signal env signal)).hub.peers.blacklisted = c.hub.peers.blacklisted
  /-- Nobody is to blame for the database. -/
  stored : ∀ i, c.handed? = some i → ∀ (a : Attempt) env index reason,
    a.landed env c.hub i (.error ⟨index, .store reason⟩) =
      (c.hub, .error (.chain (.store reason)))
  /-- For any other failure whoever the block is put down to is barred and named, and nobody
  else. -/
  refused : ∀ i, c.handed? = some i → ∀ (a : Attempt) env err,
    err.index < headers.length → (∀ reason, err.error ≠ .store reason) →
    ∃ header who, headers[err.index]? = some header ∧
      c.Verdict headers i.batch err.index header kind who ∧
      a.landed env c.hub i (.error err) =
        (who.elim c.hub fun peer => c.hub.setPeers (c.hub.peers.blacklist peer),
          .error (.validationFailure kind ⟨header.height, 1⟩ who err.error.message))

section Runs

variable {headers : List Header} {kind : Category} {c : Import σ}

omit [NodeStore σ] in
theorem handed?_eq_some {i : Insertion} (handed : c.handed? = some i) :
    ∃ a, c.standing = .ok (some (a, .inserting i)) := by
  unfold handed? at handed
  split at handed
  · rename_i a i' standing
    exact ⟨a, standing.trans (by rw [Option.some.inj handed])⟩
  · cases handed

/-- What the import waits for fits what it has taken in. -/
def Kept (headers : List Header) (kind : Category) (c : Import σ) : Prop :=
  Attempt.Awaits headers kind c.bodies c.receipts c.hub.nextTicket c.standing

theorem apply_kept (kept : c.Kept headers kind) (op : Op σ) : (c.apply op).Kept headers kind := by
  cases op with
  | meanwhile hub => exact Attempt.Awaits.mono kept (Nat.le_max_left ..)
  | signal env signal =>
    simp only [apply]
    split
    · rename_i a stage standing
      rw [Kept, standing] at kept
      exact (Attempt.step_feeds kept signal).awaits
    · exact kept

theorem run_kept (kept : c.Kept headers kind) (ops : List (Op σ)) :
    (c.run ops).Kept headers kind := by
  induction ops generalizing c with
  | nil => exact kept
  | cons op ops ih => exact ih (apply_kept kept op)

theorem fair_of_kept (kept : c.Kept headers kind) : c.Fair headers kind := by
  refine ⟨fun env signal => ?_, fun i handed a env index reason => rfl,
    fun i handed a env err inside other => ?_⟩
  · simp only [apply]
    split
    · rename_i a stage standing
      rw [Kept, standing] at kept
      exact (Attempt.step_feeds kept signal).spares.blacklisted
    · rfl
  · obtain ⟨a', standing⟩ := handed?_eq_some handed
    rw [Kept, standing] at kept
    obtain ⟨header, at'⟩ : ∃ header, headers[err.index]? = some header :=
      ⟨_, List.getElem?_eq_getElem inside⟩
    obtain ⟨who, rfl, rfl, by', verdict⟩ := verdict_of_sourced kept at'
    exact ⟨header, who, at', verdict, Attempt.refused_at other at' by'⟩

end Runs

end Import
end ChainSync
