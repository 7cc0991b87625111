import ChainSync.Proofs.Fetch.Ledger
import ChainSync.Proofs.Peer.Slots
import ChainSync.Proofs.State.Accounts
import ChainSync.Proofs.State.Requests
set_option autoImplicit false

/-!
How long a run waits for peers. It gives up only at the end of a stretch in which nothing was
outstanding and nobody came, and each such stretch is counted once.
-/

namespace ChainSync

theorem Duration.ceilMillis_le {d : Duration} {ms : Nat} :
    d.ceilMillis ≤ ms ↔ d ≤ .ofMillis ms := by
  change _ ↔ d.nanos ≤ ms * 1000000
  unfold ceilMillis
  omega

namespace Fetch

variable {σ τ : Type}

/-- A task comes to its end by answers alone, and does not tell that there are no peers. -/
class Persistent (σ τ : Type) [Workload τ] [Receiver σ τ] : Prop where
  reserve : ∀ {t t' : τ} {peer : PeerId} {capacity : Nat} {live : List PeerId} {a : Assignment},
    Workload.reserve t peer capacity live = some (a, t') →
      Workload.isDone t' = Workload.isDone t
  failPeer : ∀ (t : τ) (peer : PeerId),
    Workload.isDone (Workload.failPeer t peer).2 = Workload.isDone t
  deliver : ∀ (t : τ) (board : Board σ) (id : RequestId) (peer : PeerId) (payload : Payload),
    (Receiver.deliver t board id peer payload).2.2 ≠ .error .noUsablePeers

section Tasks

namespace Queue

variable {α : Type} {q q' : Queue α}

theorem isDone_reserve {peer : PeerId} {capacity : Nat} {live : List PeerId} {id : RequestId}
    {range : Range} (handed : q.reserve peer capacity live = some (id, range, q')) :
    q'.isDone = q.isDone := by
  obtain ⟨batch, failedBy, -, -, -, -, -, rfl⟩ := reserve_eq_some handed
  rfl

theorem isDone_failPeer (q : Queue α) (peer : PeerId) : (q.failPeer peer).2.isDone = q.isDone := by
  refine failPeer_induction (P := fun q' => q'.isDone = q.isDone) peer rfl fun {q q' id r} h lost => ?_
  rw [fail?_eq, Option.map_eq_some_iff] at lost
  obtain ⟨⟨r, taken⟩, ht, heq⟩ := lost
  cases heq
  obtain ⟨-, rfl⟩ := take?_eq_some.mp ht
  rw [complete_requeues, requeue_eq]
  exact h

end Queue

instance {δ : Type} [BlockData δ] : Persistent σ (BlockFetch δ) where
  reserve h := by
    obtain ⟨id, range, queue, handed, -, rfl⟩ := BlockFetch.reserve_eq_some h
    exact Queue.isDone_reserve handed
  failPeer f peer := f.queue.isDone_failPeer peer
  deliver _ _ _ _ _ := by rintro ⟨⟩

instance : Persistent σ HeaderFill where
  reserve h := by
    obtain ⟨id, range, queue, handed, -, rfl⟩ := HeaderFill.reserve_eq_some h
    exact Queue.isDone_reserve handed
  failPeer f peer := f.queue.isDone_failPeer peer
  deliver f board id peer payload := by
    change (f.deliver id peer payload.headersOf).2 ≠ _
    unfold HeaderFill.deliver HeaderFill.dispute
    grind

instance [NodeStore σ] : Persistent σ StateDownload where
  reserve h := (StateDownload.moved_reserve h).isDone
  failPeer d peer := (d.moved_failPeer peer).isDone
  deliver d board id peer payload := by
    change (d.deliver board.store id peer payload.nodesOf).2.2 ≠ _
    unfold StateDownload.deliver
    grind

end Tasks

/-- Neither the rules nor the count of stretches of waiting change. -/
structure Hub.Even (h h' : Hub σ) : Prop where
  config : h'.peers.config = h.peers.config
  throttle : h'.metrics.throttle = h.metrics.throttle

theorem Hub.Even.refl (h : Hub σ) : h.Even h := ⟨rfl, rfl⟩

theorem Hub.Even.trans {h h' h'' : Hub σ} (a : h.Even h') (b : h'.Even h'') : h.Even h'' :=
  ⟨b.config.trans a.config, b.throttle.trans a.throttle⟩

theorem Doing.config (doing : Doing σ) (h : Hub σ) :
    (doing.hub h).peers.config = h.peers.config := by
  cases doing with
  | register info =>
    simp only [hub, peers, Hub.setPeers, PeerSet.register]
    grind [PeerSet.publish]
  | unregister id => exact (PeerSet.Quiet.unregister h.peers id).config
  | drop id => exact PeerSet.config_drop ..
  | blacklist id => exact PeerSet.config_blacklist ..
  | updateHead id headHash head totalDifficulty =>
    simp only [hub, peers, Hub.setPeers, PeerSet.updateHead]
    grind [PeerSet.modify]
  | setForkFilter filter => rfl
  | beginRequest id c =>
    simp only [hub, peers, Hub.setPeers]
    split
    · exact PeerSet.config_beginRequest ‹_›
    · rfl
  | release slot => rfl
  | recordDelivery id c items elapsed => rfl
  | recordTimeout id c => exact PeerSet.config_recordTimeout ..
  | setEvents events => rfl
  | send peer c request => rfl
  | share metrics board heads outbox abandoned => rfl

namespace Run

variable [Workload τ] [Receiver σ τ]

omit [Workload τ] [Receiver σ τ] in
theorem even_judge (h : Hub σ) (e : Errand) (delivery : Delivery) : h.Even (judge h e delivery) := by
  unfold judge
  split
  · dsimp only
    split
    · exact ⟨PeerSet.config_recordTimeout .., rfl⟩
    · exact ⟨rfl, rfl⟩
  · exact ⟨rfl, rfl⟩
  · exact ⟨rfl, rfl⟩
  · exact ⟨PeerSet.config_drop .., rfl⟩

/-- A report says nothing about waiting. -/
theorem even_conclude [Persistent σ τ] (r : Run τ) (h : Hub σ) (e : Errand) (ending : Ending) :
    (r.conclude h e ending).1.waitingSince = r.waitingSince ∧
      h.Even (r.conclude h e ending).2.1 ∧ (r.conclude h e ending).2.2 ≠ .error .noUsablePeers := by
  cases ending with
  | answered payload =>
    have told := Persistent.deliver r.task h.board e.id e.call.peer payload
    simp only [conclude]
    generalize Receiver.deliver r.task h.board e.id e.call.peer payload = out at told
    obtain ⟨task, board, result⟩ := out
    cases result with
    | error err => exact ⟨rfl, ⟨rfl, rfl⟩, by simpa using told⟩
    | ok delivery =>
      obtain ⟨config, throttle⟩ := even_judge { h with board } e delivery
      exact ⟨rfl, ⟨config, throttle⟩, by simp⟩
  | failed error => exact ⟨rfl, ⟨PeerSet.config_drop .., rfl⟩, by simp [conclude]⟩
  | timedOut => exact ⟨rfl, ⟨PeerSet.config_recordTimeout .., rfl⟩, by simp [conclude]⟩

/-- Handing out work says nothing about waiting either. -/
theorem even_assign [Persistent σ τ] (r : Run τ) (h : Hub σ) :
    (r.assign h).1.waitingSince = r.waitingSince ∧ (r.assign h).2.now = h.now ∧
      h.Even (r.assign h).2 ∧
      Workload.isDone (r.assign h).1.task = Workload.isDone r.task := by
  refine assign_induction (P := fun r' h' => r'.waitingSince = r.waitingSince ∧ h'.now = h.now ∧
    h.Even h' ∧ Workload.isDone r'.task = Workload.isDone r.task)
    ⟨rfl, rfl, .refl h, rfl⟩ fun r' h' live peer ⟨since, now, even, done⟩ => ?_
  rcases r'.offer_cases h' live peer with
    ⟨same, -⟩ | ⟨slot, peers, begun, ⟨same, -⟩ | ⟨capacity, a, task, reserved, same⟩⟩
  · rw [same]
    exact ⟨since, now, even, done⟩
  · have config : peers.config = h'.peers.config := PeerSet.config_beginRequest begun
    rw [same]
    exact ⟨since, now, even.trans ⟨config, rfl⟩, done⟩
  · have config : peers.config = h'.peers.config := PeerSet.config_beginRequest begun
    rw [same]
    exact ⟨since, now, even.trans ⟨config, rfl⟩,
      (Persistent.reserve (σ := σ) reserved).trans done⟩

end Run

namespace Watch

variable [Workload τ] [Receiver σ τ]

/-- The run goes on, and nothing is outstanding. -/
structure Idle (w : Watch σ τ) : Prop where
  going : w.result = none
  inFlight : w.run.inFlight = 0
  errands : w.run.errands = []

/-- The run is told next that a peer has registered. -/
def Greets (w : Watch σ τ) (op : Op σ) : Prop :=
  ∃ peer events, op = .event ∧
    w.hub.peers.events.tryRecv w.run.subscription = (some (.registered peer), events)

/-- Ever since a turn at some instant nothing was outstanding, and the run was told of nobody who
registered. -/
inductive Waits (w : Watch σ τ) : List (Op σ) → Nat → Prop where
  | begins {ops : List (Op σ)} {cancelled : Bool}
    (idle : (w.play (ops ++ [.turn cancelled])).Idle) :
    Waits w (ops ++ [.turn cancelled]) (w.play ops).hub.now
  | lasts {ops : List (Op σ)} {op : Op σ} {since : Nat} (waits : Waits w ops since)
    (nobody : ¬(w.play ops).Greets op) (idle : (w.play (ops ++ [op])).Idle) :
    Waits w (ops ++ [op]) since

/-- For as long as the run is willing to wait, nothing was outstanding and nobody came. -/
def Exhausted (w : Watch σ τ) (ops : List (Op σ)) : Prop :=
  ∃ wait ∈ w.hub.peers.config.peerWaitTimeout, ∃ since,
    w.Waits ops since ∧ wait ≤ .ofMillis ((w.play ops).hub.now - since)

/-- With this act a stretch of waiting begins. -/
def Begins (w : Watch σ τ) (ops : List (Op σ)) (op : Op σ) : Prop :=
  (∀ since, ¬w.Waits ops since) ∧ ∃ since, w.Waits (ops ++ [op]) since

/-- The act counts the stretch of waiting that begins with it, if one does. -/
structure Counted (w : Watch σ τ) (ops : List (Op σ)) (op : Op σ) : Prop where
  begun : w.Begins ops op → (w.play (ops ++ [op])).hub.metrics.throttle =
    (w.play ops).hub.metrics.throttle + 1
  otherwise : ¬w.Begins ops op → (w.play (ops ++ [op])).hub.metrics.throttle =
    (w.play ops).hub.metrics.throttle

/-- The time after which the run gives up has come. -/
def Due (w : Watch σ τ) : Prop := ∃ deadline ∈ w.run.deadline? w.hub, deadline ≤ w.hub.now

/-- The run is given up only when it is due. -/
def Patient (w : Watch σ τ) : List (Op σ) → Prop
  | [] => True
  | op :: ops => (op = .giveUp → w.result = none → w.Due) ∧ (w.apply op).Patient ops

/-- What a turn comes to. -/
inductive Turned (w w' : Watch σ τ) : Prop where
  | left (ended : w'.result.isSome) (other : w'.result ≠ some (.error .noUsablePeers))
    (even : w.hub.Even w'.hub)
  | busy (going : w'.result = none) (working : w'.run.inFlight ≠ 0)
    (since : w'.run.waitingSince = none) (even : w.hub.Even w'.hub)
  | goesOn (going : w'.result = none) (idle : w'.run.inFlight = 0) {start : Nat}
    (before : w.run.waitingSince = some start) (since : w'.run.waitingSince = some start)
    (unfinished : Workload.isDone w'.run.task = false) (even : w.hub.Even w'.hub)
  | begins (going : w'.result = none) (idle : w'.run.inFlight = 0)
    (before : w.run.waitingSince = none) (since : w'.run.waitingSince = some w.hub.now)
    (unfinished : Workload.isDone w'.run.task = false)
    (config : w'.hub.peers.config = w.hub.peers.config)
    (throttle : w'.hub.metrics.throttle = w.hub.metrics.throttle + 1)

theorem turned [Persistent σ τ] (w : Watch σ τ) (cancelled : Bool) :
    Turned w (w.act (.turn cancelled)) := by
  obtain ⟨since, now, even, done⟩ := w.run.even_assign w.hub
  simp only [act, Run.turn]
  split
  · exact .left rfl (by simp) ⟨rfl, rfl⟩
  · split
    · exact .left rfl (by simp) ⟨rfl, rfl⟩
    · rename_i unfinished
      rw [Bool.not_eq_true] at unfinished
      simp only [Run.awaitPeers]
      split
      · rename_i idle
        split
        · rename_i start waiting
          exact .goesOn rfl idle (since ▸ waiting) waiting (done.trans unfinished) even
        · rename_i waiting
          exact .begins rfl idle (since ▸ waiting) (congrArg some now) (done.trans unfinished)
            even.config (congrArg (· + 1) even.throttle)
      · exact .busy rfl ‹_› rfl even

/-- What anything but a turn makes of waiting. -/
structure Aside (w : Watch σ τ) (op : Op σ) (w' : Watch σ τ) : Prop where
  greeted : w.Greets op → w'.run.waitingSince = none
  other : ¬w.Greets op → w'.run.waitingSince = w.run.waitingSince
  idle : w.arrived = [] → w'.run.inFlight = w.run.inFlight ∧
    Workload.isDone w'.run.task = Workload.isDone w.run.task
  config : w'.hub.peers.config = w.hub.peers.config
  throttle : (∀ doing, op ≠ .beside doing) → w'.hub.metrics.throttle = w.hub.metrics.throttle
  ended : op ≠ .giveUp → w.result = none → w'.result ≠ some (.error .noUsablePeers)

omit [Receiver σ τ] in
/-- Whatever the run itself takes no part in. -/
theorem Aside.of_run {w w' : Watch σ τ} {op : Op σ} (other : op ≠ .event) (run : w'.run = w.run)
    (config : w'.hub.peers.config = w.hub.peers.config)
    (throttle : (∀ doing, op ≠ .beside doing) →
      w'.hub.metrics.throttle = w.hub.metrics.throttle)
    (ended : op ≠ .giveUp → w.result = none → w'.result ≠ some (.error .noUsablePeers)) :
    Aside w op w' where
  greeted := by
    rintro ⟨-, -, same, -⟩
    exact absurd same other
  other _ := by rw [run]
  idle _ := by rw [run]; exact ⟨rfl, rfl⟩
  config := config
  throttle := throttle
  ended := ended

theorem aside [Persistent σ τ] (w : Watch σ τ) {op : Op σ} (other : ∀ cancelled, op ≠ .turn cancelled) :
    Aside w op (w.act op) := by
  cases op with
  | turn cancelled => exact absurd rfl (other cancelled)
  | arrive ticket ending =>
    simp only [act]
    split <;> exact .of_run (by simp) rfl rfl (fun _ => rfl) fun _ going => by simp [going]
  | report =>
    simp only [act]
    split
    · exact .of_run (by simp) rfl rfl (fun _ => rfl) fun _ going => by simp [going]
    · rename_i e ending arrived waiting
      obtain ⟨since, even, told⟩ := (settled w.run e.call.ticket).even_conclude w.hub e ending
      have busy : w.arrived ≠ [] := by simp [waiting]
      have quiet : ¬w.Greets .report := by simp [Greets]
      split
      · rename_i err failed
        rw [failed] at told
        exact ⟨fun greets => absurd greets quiet, fun _ => since, fun empty => absurd empty busy,
          even.config, fun _ => even.throttle, fun _ _ => by simpa [fail] using told⟩
      · exact ⟨fun greets => absurd greets quiet, fun _ => since, fun empty => absurd empty busy,
          even.config, fun _ => even.throttle, fun _ going => by simp [going]⟩
  | event =>
    simp only [act]
    split
    · rename_i heq
      have quiet : ¬w.Greets .event := by
        rintro ⟨peer, events, -, told⟩
        cases heq.symm.trans told
      exact ⟨fun greets => absurd greets quiet, fun _ => rfl, fun _ => ⟨rfl, rfl⟩, rfl, fun _ => rfl,
        fun _ going => by simp [going]⟩
    · rename_i event events heq
      have greets_iff : w.Greets .event ↔ ∃ peer, event = .registered peer := by
        simp [Greets, heq]
      have lost (peer : PeerId) :
          Workload.isDone (Workload.failPeer w.run.task peer).2 = Workload.isDone w.run.task :=
        Persistent.failPeer σ w.run.task peer
      refine ⟨fun greets => ?_, fun quiet => ?_, fun _ => ?_, rfl, fun _ => rfl,
        fun _ going => by simp [going]⟩
      · obtain ⟨peer, rfl⟩ := greets_iff.mp greets
        rfl
      · cases event with
        | registered peer => exact absurd (greets_iff.mpr ⟨peer, rfl⟩) quiet
        | unregistered peer | dropped peer => rfl
      · cases event with
        | registered peer => exact ⟨rfl, rfl⟩
        | unregistered peer | dropped peer => exact ⟨rfl, lost peer⟩
  | cancel => exact .of_run (by simp) rfl rfl (fun _ => rfl) fun _ _ => by simp [act, fail]
  | giveUp => exact .of_run (by simp) rfl rfl (fun _ => rfl) fun same => absurd rfl same
  | elapse millis =>
    simp only [act]
    split <;> exact .of_run (by simp) rfl rfl (fun _ => rfl) fun _ going => by simp [going]
  | beside doing =>
    exact .of_run (by simp) rfl (doing.config w.hub) (fun own => absurd rfl (own doing))
      fun _ going => by simp [act, going]

section Runs

variable {w : Watch σ τ} {ops : List (Op σ)} {op : Op σ} {since : Nat}

theorem play_concat (w : Watch σ τ) (ops : List (Op σ)) (op : Op σ) :
    w.play (ops ++ [op]) = (w.play ops).apply op := play_append w ops [op]

theorem Waits.idle (h : w.Waits ops since) : (w.play ops).Idle := by
  cases h with
  | begins idle => exact idle
  | lasts _ _ idle => exact idle

theorem waits_concat : w.Waits (ops ++ [op]) since ↔ (w.play (ops ++ [op])).Idle ∧
    ((∃ cancelled, op = .turn cancelled ∧ since = (w.play ops).hub.now) ∨
      w.Waits ops since ∧ ¬(w.play ops).Greets op) := by
  constructor
  · intro h
    refine ⟨h.idle, ?_⟩
    generalize same : ops ++ [op] = all at h
    cases h with
    | begins =>
      obtain ⟨rfl, last⟩ := List.append_inj' same rfl
      exact .inl ⟨_, List.singleton_inj.mp last, rfl⟩
    | lasts waits nobody =>
      obtain ⟨rfl, last⟩ := List.append_inj' same rfl
      exact .inr ⟨waits, List.singleton_inj.mp last ▸ nobody⟩
  · rintro ⟨idle, ⟨cancelled, rfl, rfl⟩ | ⟨waits, nobody⟩⟩
    · exact .begins idle
    · exact .lasts waits nobody idle

/-- The mark of a run tells since when it waits. -/
structure Marked (w : Watch σ τ) (ops : List (Op σ)) : Prop where
  config : (w.play ops).hub.peers.config = w.hub.peers.config
  waits : (w.play ops).result = none → ∀ start, (w.play ops).run.waitingSince = some start →
    w.Waits ops start ∧ Workload.isDone (w.play ops).run.task = false
  waited : (w.play ops).result = none → ∀ since, w.Waits ops since →
    ∃ start ≤ since, (w.play ops).run.waitingSince = some start

variable [Asking τ] [Accountable σ τ] [Persistent σ τ]

/-- Time does not go back. -/
theorem now_apply (v : Watch σ τ) (op : Op σ) : v.hub.now ≤ (v.apply op).hub.now := by
  cases before : v.result with
  | some result =>
    rw [apply, before]
    exact Nat.le_refl _
  | none =>
    rw [apply_eq before]
    have happens := happens_act v op
    generalize v.act op = next at happens
    cases happens with
    | nothing | left | ended | noted => exact Nat.le_refl _
    | passed => exact Nat.le_of_eq (v.run.even_assign v.hub).2.1.symm
    | @told e ending arrived run hub first concluded =>
      have same := (concludes (settled v.run e.call.ticket) v.hub e ending).now
      rw [concluded] at same
      exact Nat.le_of_eq same.symm
    | @refused e ending arrived run hub err first concluded =>
      have same := (concludes (settled v.run e.call.ticket) v.hub e ending).now
      rw [concluded] at same
      exact Nat.le_of_eq same.symm
    | waited => exact Nat.le_add_right ..
    | aside doing => exact Nat.le_of_eq (hub_clock v.hub doing).1.symm

theorem Waits.early (h : w.Waits ops since) : since ≤ (w.play ops).hub.now := by
  induction h with
  | begins => rw [play_concat]; exact now_apply ..
  | lasts _ _ _ ih => rw [play_concat]; exact ih.trans (now_apply ..)

omit [Workload τ] [Receiver σ τ] [Accountable σ τ] [Persistent σ τ] in
theorem Ledger.idle {v : Watch σ τ} (h : v.Ledger) (going : v.result = none)
    (idle : v.run.inFlight = 0) : v.Idle :=
  ⟨going, idle, List.length_eq_zero_iff.mp (h.counter ▸ idle)⟩

theorem marked_concat (ledger : w.Ledger) (h : w.Marked ops) (op : Op σ) :
    w.Marked (ops ++ [op]) := by
  have ledger' : (w.play (ops ++ [op])).Ledger := ledger_play ledger _
  have books : (w.play ops).Ledger := ledger_play ledger _
  obtain ⟨config, waits, waited⟩ := h
  cases before : (w.play ops).result with
  | some result =>
    -- nothing happens any more
    have same : w.play (ops ++ [op]) = w.play ops := by
      rw [play_concat, apply, before]
      rfl
    refine ⟨by rw [same, config], fun going => ?_, fun going => ?_⟩ <;>
    · rw [same, before] at going
      cases going
  | none =>
    have same : w.play (ops ++ [op]) = (w.play ops).act op := by rw [play_concat, apply_eq before]
    by_cases turns : ∃ cancelled, op = .turn cancelled
    · obtain ⟨cancelled, rfl⟩ := turns
      have quiet : ¬(w.play ops).Greets (.turn cancelled) := by simp [Greets]
      have turned := (w.play ops).turned cancelled
      rw [← same] at turned
      cases turned with
      | left ended other even =>
        refine ⟨even.config.trans config, fun going => ?_, fun going => ?_⟩ <;>
        · rw [going] at ended
          cases ended
      | busy going working mark even =>
        refine ⟨even.config.trans config, fun _ start marked => ?_, fun _ since waiting => ?_⟩
        · rw [mark] at marked
          cases marked
        · exact absurd waiting.idle.inFlight working
      | @goesOn going idle start earlier mark unfinished even =>
        have waiting := (waits before start earlier).1
        refine ⟨even.config.trans config, fun _ start' marked => ?_, fun _ since waiting' => ?_⟩
        · obtain rfl : start = start' := Option.some.inj (mark.symm.trans marked)
          exact ⟨waits_concat.mpr ⟨ledger'.idle going idle, .inr ⟨waiting, quiet⟩⟩, unfinished⟩
        · refine ⟨start, ?_, mark⟩
          obtain ⟨-, ⟨_, -, rfl⟩ | ⟨lasting, -⟩⟩ := waits_concat.mp waiting'
          · exact waiting.early
          · obtain ⟨start', le, marked⟩ := waited before since lasting
            obtain rfl : start = start' := Option.some.inj (earlier.symm.trans marked)
            exact le
      | begins going idle earlier mark unfinished kept throttle =>
        refine ⟨kept.trans config, fun _ start marked => ?_, fun _ since waiting => ?_⟩
        · obtain rfl : _ = start := Option.some.inj (mark.symm.trans marked)
          exact ⟨waits_concat.mpr ⟨ledger'.idle going idle, .inl ⟨cancelled, rfl, rfl⟩⟩, unfinished⟩
        · refine ⟨_, ?_, mark⟩
          obtain ⟨-, ⟨_, -, rfl⟩ | ⟨lasting, -⟩⟩ := waits_concat.mp waiting
          · exact Nat.le_refl _
          · obtain ⟨start, -, marked⟩ := waited before since lasting
            cases earlier.symm.trans marked
    · have aside := (w.play ops).aside (not_exists.mp turns)
      rw [← same] at aside
      refine ⟨aside.config.trans config, fun going start marked => ?_, fun _ since waiting => ?_⟩
      · have quiet : ¬(w.play ops).Greets op := fun greets => by simp [aside.greeted greets] at marked
        rw [aside.other quiet] at marked
        obtain ⟨waiting, unfinished⟩ := waits before start marked
        have nobody : (w.play ops).arrived = [] := List.eq_nil_iff_forall_not_mem.mpr fun x hx => by
          simpa [waiting.idle.errands] using books.arrived x hx
        obtain ⟨inFlight, done⟩ := aside.idle nobody
        have idle := ledger'.idle going (inFlight.trans waiting.idle.inFlight)
        exact ⟨waits_concat.mpr ⟨idle, .inr ⟨waiting, quiet⟩⟩, done.trans unfinished⟩
      · obtain ⟨-, ⟨cancelled, rfl, -⟩ | ⟨waiting, quiet⟩⟩ := waits_concat.mp waiting
        · exact absurd ⟨cancelled, rfl⟩ turns
        · rw [aside.other quiet]
          exact waited before since waiting

theorem marked_play (ledger : w.Ledger) (fresh : w.run.waitingSince = none) (ops : List (Op σ)) :
    w.Marked ops := by
  induction ops using List.reverseRecOn with
  | nil =>
    refine ⟨rfl, fun _ start marked => ?_, fun _ since waiting => ?_⟩
    · cases fresh.symm.trans marked
    · generalize same : ([] : List (Op σ)) = ops at waiting
      cases waiting <;> simp at same
  | append_singleton ops op ih => exact marked_concat ledger ih op

theorem due_iff (marked : w.Marked ops) (going : (w.play ops).result = none) :
    (w.play ops).Due ↔ w.Exhausted ops := by
  unfold Exhausted
  rw [← marked.config]
  constructor
  · rintro ⟨deadline, at', past⟩
    unfold Run.deadline? at at'
    split at at'
    · rename_i start wait mark limit
      split at at' <;> cases at'
      exact ⟨wait, limit, start, (marked.waits going start mark).1,
        Duration.ceilMillis_le.mp (by omega)⟩
    · cases at'
  · rintro ⟨wait, limit, since, waiting, long⟩
    obtain ⟨start, earlier, mark⟩ := marked.waited going since waiting
    have long := Duration.ceilMillis_le.mpr long
    have early := waiting.early
    refine ⟨start + wait.ceilMillis, ?_, by omega⟩
    simp [Run.deadline?, mark, Option.mem_def.mp limit, waiting.idle.inFlight]

omit [Asking τ] [Accountable σ τ] [Persistent σ τ] in
theorem patient_concat : w.Patient (ops ++ [op]) ↔
    w.Patient ops ∧ (op = .giveUp → (w.play ops).result = none → (w.play ops).Due) := by
  induction ops generalizing w with
  | nil => simp [Patient, play]
  | cons first ops ih =>
    simp only [List.cons_append, Patient, ih, and_assoc]
    rfl

omit [Asking τ] [Accountable σ τ] [Persistent σ τ] in
theorem patient_of_not_mem (never : .giveUp ∉ ops) : w.Patient ops := by
  induction ops generalizing w with
  | nil => trivial
  | cons op ops ih =>
    rw [List.mem_cons, not_or] at never
    exact ⟨fun same => absurd same.symm never.1, ih never.2⟩

theorem gave_up (ledger : w.Ledger) (fresh : w.run.waitingSince = none) (going : w.result = none)
    (patient : w.Patient ops) (gaveUp : (w.play ops).result = some (.error .noUsablePeers)) :
    ∃ earlier later, ops = earlier ++ .giveUp :: later ∧ (w.play earlier).result = none ∧
      (w.play earlier).Due ∧ Workload.isDone (w.play earlier).run.task = false := by
  induction ops using List.reverseRecOn with
  | nil => cases going.symm.trans gaveUp
  | append_singleton ops op ih =>
    obtain ⟨before, due⟩ := patient_concat.mp patient
    rw [play_concat] at gaveUp
    cases ended : (w.play ops).result with
    | some result =>
      rw [apply, ended] at gaveUp
      obtain ⟨earlier, later, rfl, rest⟩ := ih before gaveUp
      exact ⟨earlier, later ++ [op], by simp, rest⟩
    | none =>
      rw [apply_eq ended] at gaveUp
      by_cases last : op = .giveUp
      · have due := due last ended
        obtain ⟨start, mark⟩ : ∃ start, (w.play ops).run.waitingSince = some start := by
          obtain ⟨deadline, at', -⟩ := due
          unfold Run.deadline? at at'
          split at at'
          · exact ⟨_, ‹_›⟩
          · cases at'
        exact ⟨ops, [], by rw [last], ended, due,
          ((marked_play ledger fresh ops).waits ended start mark).2⟩
      · -- by itself the run does not come to this end
        by_cases turns : ∃ cancelled, op = .turn cancelled
        · obtain ⟨cancelled, rfl⟩ := turns
          cases (w.play ops).turned cancelled with
          | left _ other => exact absurd gaveUp other
          | busy going | goesOn going | begins going => cases going.symm.trans gaveUp
        · exact absurd gaveUp (((w.play ops).aside (not_exists.mp turns)).ended last ended)

theorem counted (ledger : w.Ledger) (fresh : w.run.waitingSince = none)
    (own : ∀ doing, op ≠ .beside doing) : w.Counted ops op := by
  have marked := marked_play ledger fresh ops
  have marked' := marked_play ledger fresh (ops ++ [op])
  have quiet (goesOn : ¬w.Begins ops op) (same : (w.play (ops ++ [op])).hub.metrics.throttle =
      (w.play ops).hub.metrics.throttle) : w.Counted ops op :=
    ⟨fun begins => absurd begins goesOn, fun _ => same⟩
  cases before : (w.play ops).result with
  | some result =>
    have same : w.play (ops ++ [op]) = w.play ops := by
      rw [play_concat, apply, before]
      rfl
    refine quiet ?_ (by rw [same])
    rintro ⟨-, since, waiting⟩
    have going := waiting.idle.going
    rw [same, before] at going
    cases going
  | none =>
    have same : w.play (ops ++ [op]) = (w.play ops).act op := by rw [play_concat, apply_eq before]
    by_cases turns : ∃ cancelled, op = .turn cancelled
    · obtain ⟨cancelled, rfl⟩ := turns
      have turned := (w.play ops).turned cancelled
      rw [← same] at turned
      cases turned with
      | left ended other even =>
        refine quiet ?_ even.throttle
        rintro ⟨-, since, waiting⟩
        rw [waiting.idle.going] at ended
        cases ended
      | busy going working mark even =>
        refine quiet ?_ even.throttle
        rintro ⟨-, since, waiting⟩
        exact working waiting.idle.inFlight
      | @goesOn going idle start earlier mark unfinished even =>
        refine quiet ?_ even.throttle
        rintro ⟨first, -⟩
        exact first start (marked.waits before start earlier).1
      | begins going idle earlier mark unfinished kept throttle =>
        refine ⟨fun _ => throttle, fun goesOn => absurd ⟨fun since waiting => ?_, ?_⟩ goesOn⟩
        · obtain ⟨start, -, marked⟩ := marked.waited before since waiting
          cases earlier.symm.trans marked
        · exact ⟨_, (marked'.waits going _ mark).1⟩
    · have aside := (w.play ops).aside (not_exists.mp turns)
      rw [← same] at aside
      refine quiet ?_ (aside.throttle own)
      rintro ⟨first, since, waiting⟩
      obtain ⟨-, ⟨cancelled, rfl, -⟩ | ⟨waiting, -⟩⟩ := waits_concat.mp waiting
      · exact turns ⟨cancelled, rfl⟩
      · exact first since waiting

end Runs

/-- How a run waits for peers. -/
structure Waiting (w : Watch σ τ) (ops : List (Op σ)) : Prop where
  /-- The time to give up has come when a stretch of waiting was long enough. -/
  due : (w.play ops).result = none → ((w.play ops).Due ↔ w.Exhausted ops)
  /-- It comes to this end in no other way, and not when it is done. -/
  givesUp : w.Patient ops → (w.play ops).result = some (.error .noUsablePeers) →
    ∃ earlier later, ops = earlier ++ .giveUp :: later ∧ w.Exhausted earlier ∧
      Workload.isDone (w.play earlier).run.task = false
  /-- What the run does itself counts the stretches that begin, and nothing else. -/
  counts : ∀ op, (∀ doing, op ≠ .beside doing) → w.Counted ops op

theorem waiting_opened [Asking τ] [Accountable σ τ] [Persistent σ τ] {task : τ}
    (unasked : ∀ id, Asking.asks task id = none) (h : Hub σ) (ops : List (Op σ)) :
    (opened task h).Waiting ops := by
  have ledger : (opened task h).Ledger := ledger_opened unasked h
  refine ⟨fun going => due_iff (marked_play ledger rfl ops) going, fun patient gaveUp => ?_,
    fun op own => counted ledger rfl own⟩
  obtain ⟨earlier, later, same, going, due, unfinished⟩ := gave_up ledger rfl rfl patient gaveUp
  exact ⟨earlier, later, same, (due_iff (marked_play ledger rfl earlier) going).mp due, unfinished⟩

end Watch

/-- Requests end, peers come and go and time passes in any order. A run gives up when nothing was
outstanding and nobody came for as long as it is willing to wait, not when it is done and not
before; and every such stretch is counted once, at its first turn. -/
theorem gives_up_after_waiting {σ : Type} [NodeStore σ] (h : Hub σ) (ops : List (Watch.Op σ)) :
    (∀ (session : Nat) (origin : Header) (skeleton : List Header) (master : PeerId)
      (engine : Engine) (limit : Nat),
      (Watch.opened (HeaderFill.start session origin skeleton master engine limit) h).Waiting
        ops) ∧
    (∀ (session : Nat) (headers : List Header) (size : Nat),
      (Watch.opened (.start session headers size : BlockFetch Body) h).Waiting ops) ∧
    (∀ (session : Nat) (headers : List Header) (size : Nat),
      (Watch.opened (.start session headers size : BlockFetch (List Receipt)) h).Waiting ops) ∧
    ∀ (session : Nat) (root : Hash) (store : σ) (commitBatch : Nat) (d : StateDownload),
      StateDownload.start session root store commitBatch = .ok d →
        (Watch.opened d h).Waiting ops := by
  refine ⟨?fill, ?bodies, ?receipts, ?state⟩
  case fill =>
    intro session origin skeleton master engine limit
    exact Watch.waiting_opened (fun _ => rfl) h ops
  case bodies =>
    intro session headers size
    exact Watch.waiting_opened (fun _ => rfl) h ops
  case receipts =>
    intro session headers size
    exact Watch.waiting_opened (fun _ => rfl) h ops
  case state =>
    intro session root store commitBatch d opened
    exact Watch.waiting_opened (StateDownload.unasked_start opened) h ops

/-- The only peer comes late and fails, and nobody comes after it. -/
theorem gives_up_after_waiting_failed_peer :
    let info : PeerInfo :=
      { id := 1, version := 68, headHash := 0, head := 0, totalDifficulty := .ofNat 0
        forkId := none, connection := 0 }
    let h : Hub MemoryStore :=
      { peers := { config := { peerWaitTimeout := some (.ofMillis 50) } }, board := ⟨{}, ⟨[]⟩⟩ }
    let fill : HeaderFill := .start 7 {} [{ number := 3 }] 1 (.ethash 0) 2
    let before : List (Watch.Op MemoryStore) :=
      [.turn false, .elapse 30, .beside (.register info), .event, .turn false,
        .arrive 0 .timedOut, .report, .beside (.drop 1), .turn false, .event, .turn false,
        .elapse 30, .turn false, .elapse 20]
    let ops := before ++ [.giveUp]
    let w := Watch.opened fill h
    w.Patient ops ∧ (w.play ops).hub.metrics.throttle = 2 ∧
      (w.play ops).result = some (.error .noUsablePeers) ∧
      ∃ earlier later, ops = earlier ++ .giveUp :: later ∧ w.Exhausted earlier ∧
        (w.play earlier).run.task.isDone = false := by
  intro info h fill before ops w
  have waiting := (gives_up_after_waiting h ops).1 7 {} [{ number := 3 }] 1 (.ethash 0) 2
  have patient : w.Patient ops := Watch.patient_concat.mpr
    ⟨Watch.patient_of_not_mem (by simp [before]),
      fun _ _ => ⟨80, by decide +kernel, by decide +kernel⟩⟩
  have gaveUp : (w.play ops).result = some (.error .noUsablePeers) := by decide +kernel
  exact ⟨patient, by decide +kernel, gaveUp, waiting.givesUp patient gaveUp⟩

end Fetch
end ChainSync
