import ChainSync.Fetch.Run
set_option autoImplicit false

/-!
A run of a task among everything else that goes on: requests come to an end, others register, drop
and ask peers, and time passes, all in any order.
-/

namespace ChainSync.Fetch

/-- What others do to the hub meanwhile. -/
inductive Doing (σ : Type) where
  | register (info : PeerInfo)
  | unregister (id : PeerId)
  | drop (id : PeerId)
  | blacklist (id : PeerId)
  | updateHead (id : PeerId) (headHash : Hash) (head : UInt64) (totalDifficulty : U256)
  | setForkFilter (filter : Option Fork.Filter)
  | beginRequest (id : PeerId) (c : Category)
  | release (slot : Slot)
  | recordDelivery (id : PeerId) (c : Category) (items : Nat) (elapsed : Duration)
  | recordTimeout (id : PeerId) (c : Category)
  /-- Any other events than those of the peers, and any other readers. -/
  | setEvents (events : EventBus PeerEvent)
  | send (peer : SyncPeer) (c : Category) (request : Request)
  /-- What no run asks the hub for. -/
  | share (metrics : Metrics) (board : Board σ) (heads : EventBus ChainHead)
      (outbox abandoned : List Call)

namespace Doing

variable {σ : Type}

def peers (s : PeerSet) : Doing σ → PeerSet
  | .register info =>
    match s.register info with
    | .ok s' => s'
    | .error _ => s
  | .unregister id => s.unregister id
  | .drop id => s.drop id
  | .blacklist id => s.blacklist id
  | .updateHead id headHash head totalDifficulty =>
    match s.updateHead id headHash head totalDifficulty with
    | .ok s' => s'
    | .error _ => s
  | .setForkFilter filter => s.setForkFilter filter
  | .beginRequest id c =>
    match s.beginRequest id c with
    | .ok (_, s') => s'
    | .error _ => s
  | .release slot => s.release slot
  | .recordDelivery id c items elapsed => s.recordDelivery id c items elapsed
  | .recordTimeout id c => (s.recordTimeout id c).2
  | .setEvents events => { s with events }
  | .send .. | .share .. => s

def hub (h : Hub σ) : Doing σ → Hub σ
  | .send peer c request => (h.send peer c request).2
  | .share metrics board heads outbox abandoned =>
    { h with metrics, board, heads, outbox, abandoned }
  | doing => h.setPeers (doing.peers h.peers)

/-- Takes and gives back no slots of this category. -/
def Spares (c : Category) : Doing σ → Prop
  | .beginRequest _ d => d ≠ c
  | .release slot => slot.category ≠ c
  | _ => True

end Doing

/-- A run of a task, with what was asked and told so far. -/
structure Watch (σ τ : Type) where
  run : Run τ
  hub : Hub σ
  /-- The requests that ended, oldest first, of which the run has not been told yet. Their slots
  are free. -/
  arrived : List (Errand × Ending)
  result : Option (Except SyncError Unit)
  issued : List Call
  reported : List (Call × Ending)

namespace Watch

variable {σ τ : Type}

inductive Op (σ : Type) where
  | turn (cancelled : Bool)
  /-- A request of the run comes to an end. -/
  | arrive (ticket : Nat) (ending : Ending)
  /-- The run is told of the oldest end. -/
  | report
  /-- The run is told of the oldest event. -/
  | event
  | cancel
  | giveUp
  | elapse (millis : Nat)
  | beside (doing : Doing σ)

/-- A run before its first turn. -/
def opened (task : τ) (h : Hub σ) : Watch σ τ :=
  let (subscription, events) := h.peers.events.subscribe
  { run := { task, subscription, errands := [], inFlight := 0, waitingSince := none }
    hub := { h with peers := { h.peers with events } }
    arrived := []
    result := none
    issued := []
    reported := [] }

/-- The requests that have not ended. -/
def underWay (w : Watch σ τ) : List Errand :=
  w.run.errands.filter fun e => !w.arrived.any (·.1.call.ticket == e.call.ticket)

/-- The run without a request that it is told the end of. -/
def settled (r : Run τ) (ticket : Nat) : Run τ :=
  { r with errands := r.errands.filter (·.call.ticket != ticket), inFlight := r.inFlight - 1 }

def fail (w : Watch σ τ) (err : SyncError) : Watch σ τ :=
  { w with hub := w.run.leave w.hub, result := some (.error err) }

variable [Workload τ] [Receiver σ τ]

/-- A request has ended by the time at which its answer comes too late. -/
def act (w : Watch σ τ) : Op σ → Watch σ τ
  | .turn cancelled =>
    let (run, hub, result) := w.run.turn w.hub cancelled
    { w with
      run, hub, result
      issued := w.issued ++ (run.errands.drop w.run.errands.length).map (·.call) }
  | .arrive ticket ending =>
    match w.underWay.find? (·.call.ticket == ticket) with
    | none => w
    | some e => { w with hub := w.hub.finish e.call, arrived := w.arrived ++ [(e, ending)] }
  | .report =>
    match w.arrived with
    | [] => w
    | (e, ending) :: arrived =>
      let (run, hub, result) := (settled w.run e.call.ticket).conclude w.hub e ending
      let w := { w with run, hub, arrived, reported := w.reported ++ [(e.call, ending)] }
      match result with
      | .error err => w.fail err
      | .ok () => w
  | .event =>
    match w.hub.peers.events.tryRecv w.run.subscription with
    | (none, _) => w
    | (some event, events) =>
      { w with
        run := w.run.noteEvent event
        hub := { w.hub with peers := { w.hub.peers with events } } }
  | .cancel => w.fail .cancelled
  | .giveUp => w.fail .noUsablePeers
  | .elapse millis =>
    if w.underWay.all (w.hub.now + millis ≤ ·.call.expires) then
      { w with hub := { w.hub with now := w.hub.now + millis } }
    else w
  | .beside doing => { w with hub := doing.hub w.hub }

/-- What an act can come to. -/
inductive Happens (w : Watch σ τ) : Op σ → Watch σ τ → Prop where
  | nothing (op : Op σ) : Happens w op w
  /-- The run ends by itself, or is ended. -/
  | left (op : Op σ) (result : Except SyncError Unit) :
    Happens w op { w with hub := w.run.leave w.hub, result := some result }
  /-- Work is handed out; the rest is about waiting. -/
  | passed {cancelled : Bool} (waitingSince : Option Nat) (metrics : Metrics) :
    Happens w (.turn cancelled) { w with
      run := { (w.run.assign w.hub).1 with waitingSince }
      hub := { (w.run.assign w.hub).2 with metrics }
      result := none
      issued :=
        w.issued ++ ((w.run.assign w.hub).1.errands.drop w.run.errands.length).map (·.call) }
  | ended {ticket : Nat} {ending : Ending} {e : Errand} (under : e ∈ w.underWay) :
    Happens w (.arrive ticket ending)
      { w with hub := w.hub.finish e.call, arrived := w.arrived ++ [(e, ending)] }
  | told {e : Errand} {ending : Ending} {arrived : List (Errand × Ending)} {run : Run τ}
      {hub : Hub σ} (first : w.arrived = (e, ending) :: arrived)
      (concluded : (settled w.run e.call.ticket).conclude w.hub e ending = (run, hub, .ok ())) :
    Happens w .report
      { w with run, hub, arrived, reported := w.reported ++ [(e.call, ending)] }
  | refused {e : Errand} {ending : Ending} {arrived : List (Errand × Ending)} {run : Run τ}
      {hub : Hub σ} {err : SyncError} (first : w.arrived = (e, ending) :: arrived)
      (concluded : (settled w.run e.call.ticket).conclude w.hub e ending = (run, hub, .error err)) :
    Happens w .report
      (fail { w with run, hub, arrived, reported := w.reported ++ [(e.call, ending)] } err)
  | noted (event : PeerEvent) (events : EventBus PeerEvent) :
    Happens w .event { w with
      run := w.run.noteEvent event
      hub := { w.hub with peers := { w.hub.peers with events } } }
  | waited {millis : Nat} (timely : ∀ e ∈ w.underWay, w.hub.now + millis ≤ e.call.expires) :
    Happens w (.elapse millis) { w with hub := { w.hub with now := w.hub.now + millis } }
  | aside (doing : Doing σ) : Happens w (.beside doing) { w with hub := doing.hub w.hub }

theorem happens_act (w : Watch σ τ) (op : Op σ) : Happens w op (w.act op) := by
  cases op with
  | turn cancelled =>
    have leaves (result : Except SyncError Unit) : Happens w (.turn cancelled) { w with
        hub := w.run.leave w.hub
        result := some result
        issued := w.issued ++ (w.run.errands.drop w.run.errands.length).map (·.call) } := by
      rw [List.drop_length, List.map_nil, List.append_nil]
      exact .left _ result
    simp only [act, Run.turn]
    split
    · exact leaves _
    · split
      · exact leaves _
      · simp only [Run.awaitPeers]
        split
        · split <;> exact .passed _ _
        · exact .passed _ _
  | arrive ticket ending =>
    simp only [act]
    split
    · exact .nothing _
    · rename_i e found
      exact .ended (List.mem_of_find?_eq_some found)
  | report =>
    simp only [act]
    split
    · exact .nothing _
    · rename_i e ending arrived first
      cases concluded : (settled w.run e.call.ticket).conclude w.hub e ending with
      | mk run rest =>
        obtain ⟨hub, result⟩ := rest
        cases result with
        | error err => exact .refused first concluded
        | ok _ => exact .told first concluded
  | event =>
    simp only [act]
    split
    · exact .nothing _
    · exact .noted _ _
  | cancel => exact .left _ _
  | giveUp => exact .left _ _
  | elapse millis =>
    simp only [act]
    split
    · rename_i timely
      exact .waited fun e he => of_decide_eq_true (List.all_eq_true.mp timely e he)
    · exact .nothing _
  | beside doing => exact .aside doing

/-- Nothing happens to a run that is over. -/
def apply (w : Watch σ τ) (op : Op σ) : Watch σ τ := if w.result.isSome then w else w.act op

def play (w : Watch σ τ) (ops : List (Op σ)) : Watch σ τ := ops.foldl apply w

theorem play_append (w : Watch σ τ) (ops more : List (Op σ)) :
    w.play (ops ++ more) = (w.play ops).play more := List.foldl_append

theorem apply_eq {w : Watch σ τ} (going : w.result = none) (op : Op σ) : w.apply op = w.act op := by
  rw [apply, going]
  rfl

theorem play_over {w : Watch σ τ} (finished : w.result.isSome) (ops : List (Op σ)) :
    w.play ops = w := by
  induction ops with
  | nil => rfl
  | cons op ops ih =>
    have same : w.apply op = w := if_pos finished
    rw [play, List.foldl_cons, same]
    exact ih

/-- What holds of a run at first, and is kept by all that happens to it while it goes on. -/
theorem play_invariant {P : Watch σ τ → Prop} {w : Watch σ τ} {ops : List (Op σ)} (start : P w)
    (step : ∀ w, ∀ op ∈ ops, w.result = none → P w → P (w.act op)) : P (w.play ops) := by
  induction ops generalizing w with
  | nil => exact start
  | cons op ops ih =>
    refine ih ?_ fun w op hop => step w op (List.mem_cons_of_mem _ hop)
    cases going : w.result with
    | none =>
      rw [apply_eq going]
      exact step w op (List.mem_cons_self ..) going start
    | some result =>
      rw [apply, going]
      exact start

section Steps

/-- The run, the hub and the result, as a run returns them. -/
def outcome (w : Watch σ τ) : Run τ × Hub σ × Option (Except SyncError Unit) :=
  (w.run, w.hub, w.result)

/-- What a run may come to, without any ends left of which it was not told before. -/
def Comes (w : Watch σ τ) (out : Run τ × Hub σ × Option (Except SyncError Unit)) : Prop :=
  ∃ ops, (w.play ops).outcome = out ∧ (w.play ops).arrived = w.arrived

theorem Comes.refl {w : Watch σ τ} (going : w.result = none) : w.Comes (w.run, w.hub, none) :=
  ⟨[], by rw [← going]; exact ⟨rfl, rfl⟩⟩

theorem Comes.step {w : Watch σ τ} {out : Run τ × Hub σ × Option (Except SyncError Unit)}
    (op : Op σ) (came : (w.apply op).outcome = out) (told : (w.apply op).arrived = w.arrived) :
    w.Comes out := ⟨[op], came, told⟩

theorem Comes.trans {w : Watch σ τ} {run : Run τ} {hub : Hub σ}
    {out : Run τ × Hub σ × Option (Except SyncError Unit)} (first : w.Comes (run, hub, none))
    (rest : ∀ v : Watch σ τ, v.run = run → v.hub = hub → v.result = none → v.Comes out) :
    w.Comes out := by
  obtain ⟨ops, came, told⟩ := first
  obtain ⟨more, came', told'⟩ := rest (w.play ops) (congrArg (·.1) came) (congrArg (·.2.1) came)
    (congrArg (·.2.2) came)
  exact ⟨ops ++ more, by rw [play_append, came'], by rw [play_append, told', told]⟩

theorem comes_turn {w : Watch σ τ} (going : w.result = none) (cancelled : Bool) :
    w.Comes (w.run.turn w.hub cancelled) :=
  .step (.turn cancelled) (by rw [apply_eq going]; rfl) (by rw [apply_eq going]; rfl)

/-- Taking in events is being told of one after the other, with a turn after each. -/
theorem comes_catchUp (cancelled : Bool) (fuel : Nat) {w : Watch σ τ} (going : w.result = none) :
    w.Comes (Run.catchUp cancelled fuel w.run w.hub) := by
  induction fuel generalizing w with
  | zero => exact .refl going
  | succ fuel ih =>
    unfold Run.catchUp
    split
    · exact .refl going
    · rename_i event events heq
      have told : w.apply .event = { w with
          run := w.run.noteEvent event
          hub := { w.hub with peers := { w.hub.peers with events } } } := by
        rw [apply_eq going, act, heq]
      have noted : w.Comes (w.run.noteEvent event,
          { w.hub with peers := { w.hub.peers with events } }, none) :=
        .step .event (by rw [told, ← going]; rfl) (by rw [told])
      refine noted.trans fun v hrun hhub going => ?_
      have turned := comes_turn going cancelled
      rw [hrun, hhub] at turned
      split
      · rename_i heq
        exact heq ▸ turned
      · rename_i heq
        exact (heq ▸ turned).trans fun v hrun hhub going => hrun ▸ hhub ▸ ih going

theorem comes_proceed (cancelled : Bool) {w : Watch σ τ} (going : w.result = none) :
    w.Comes (w.run.proceed w.hub cancelled) := by
  have turned := comes_turn going cancelled
  unfold Run.proceed
  split
  · rename_i heq
    exact heq ▸ turned
  · rename_i heq
    exact (heq ▸ turned).trans fun v hrun hhub going =>
      hrun ▸ hhub ▸ comes_catchUp cancelled _ going

theorem comes_start (task : τ) (h : Hub σ) (cancelled : Bool) :
    (opened task h).Comes (Run.start task h cancelled) :=
  comes_proceed cancelled (w := opened task h) rfl

/-- One signal to a run that was told of everything before. An end is told as soon as it comes. -/
theorem comes_step {w : Watch σ τ} (going : w.result = none) (told : w.arrived = [])
    (cancelled : Bool) (signal : Signal) : w.Comes (w.run.step w.hub cancelled signal) := by
  cases signal with
  | woken =>
    unfold Run.step Run.wake
    cases cancelled with
    | true => exact .step .cancel (by rw [apply_eq going]; rfl) (by rw [apply_eq going]; rfl)
    | false => exact comes_catchUp false _ going
  | deadline => exact .step .giveUp (by rw [apply_eq going]; rfl) (by rw [apply_eq going]; rfl)
  | ended ticket ending =>
    simp only [Run.step]
    split
    · exact .refl going
    · rename_i e found
      obtain rfl : e.call.ticket = ticket := by simpa using List.find?_some found
      have ended : w.apply (.arrive e.call.ticket ending) =
          { w with hub := w.hub.finish e.call, arrived := [(e, ending)] } := by
        have under : w.underWay = w.run.errands := by simp [underWay, told]
        rw [apply_eq going, act, under, found, told]
        rfl
      have waiting : (w.apply (.arrive e.call.ticket ending)).result = none := by rw [ended, going]
      have reported (run : Run τ) (hub : Hub σ) (result : Except SyncError Unit) :
          (settled w.run e.call.ticket).conclude (w.hub.finish e.call) e ending =
              (run, hub, result) →
            w.Comes (match result with
              | .error err => (run, run.leave hub, some (.error err))
              | .ok () => (run, hub, none)) := by
        intro concluded
        refine ⟨[.arrive e.call.ticket ending, .report], ?_⟩
        change ((w.apply (.arrive e.call.ticket ending)).apply .report).outcome = _ ∧
          ((w.apply (.arrive e.call.ticket ending)).apply .report).arrived = _
        rw [apply_eq waiting, ended, told]
        simp only [act, concluded]
        cases result with
        | error err => exact ⟨rfl, rfl⟩
        | ok _ => exact ⟨congrArg (fun r => (run, hub, r)) going, rfl⟩
      split
      · rename_i heq
        exact reported _ _ _ heq
      · rename_i heq
        exact (reported _ _ _ heq).trans fun v hrun hhub going =>
          hrun ▸ hhub ▸ comes_proceed cancelled going

end Steps

end Watch
end ChainSync.Fetch
