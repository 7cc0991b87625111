import ChainSync.Proofs.Fetch.Conduct
import ChainSync.Proofs.Fetch.Failures
import ChainSync.Proofs.Peer.Operations
set_option autoImplicit false

/-!
What fetching leaves alone. A run of a task changes peers, counters and its own results, but not
the rules, the published heads or how far the chain is; and it keeps of its task whatever the
task's own calls keep.
-/

namespace ChainSync

namespace Fetch

variable {σ τ : Type}

structure Hub.Quiet (h h' : Hub σ) : Prop where
  heads : h'.heads = h.heads
  config : h'.peers.config = h.peers.config
  ids : h'.peers.ids = h.peers.ids
  current : h'.board.progress.current = h.board.progress.current

namespace Hub.Quiet

variable {h h' h'' : Hub σ}

theorem refl (h : Hub σ) : h.Quiet h := ⟨rfl, rfl, rfl, rfl⟩

theorem trans (a : h.Quiet h') (b : h'.Quiet h'') : h.Quiet h'' :=
  ⟨b.heads.trans a.heads, b.config.trans a.config, b.ids.trans a.ids, b.current.trans a.current⟩

theorem setPeers (h : Hub σ) {peers : PeerSet} (config : peers.config = h.peers.config)
    (ids : peers.ids = h.peers.ids) : h.Quiet (h.setPeers peers) := ⟨rfl, config, ids, rfl⟩

theorem setPhase (h : Hub σ) (phase : SyncPhase) : h.Quiet (h.setPhase phase) :=
  ⟨rfl, rfl, rfl, rfl⟩

theorem send (h : Hub σ) (peer : SyncPeer) (category : Category) (request : Request) :
    h.Quiet (h.send peer category request).2 := ⟨rfl, rfl, rfl, rfl⟩

theorem release (h : Hub σ) (slot : Slot) : h.Quiet (h.setPeers (h.peers.release slot)) :=
  .setPeers h rfl (PeerSet.ids_release ..)

theorem drop (h : Hub σ) (id : PeerId) : h.Quiet (h.setPeers (h.peers.drop id)) :=
  .setPeers h (PeerSet.config_drop ..) (PeerSet.ids_drop ..)

theorem beginRequest (h : Hub σ) {peers : PeerSet} {id : PeerId} {c : Category} {slot : Slot}
    (begun : h.peers.beginRequest id c = .ok (slot, peers)) : h.Quiet (h.setPeers peers) :=
  .setPeers h (PeerSet.config_beginRequest begun) (PeerSet.ids_beginRequest begun)

theorem finish (h : Hub σ) (c : Call) : h.Quiet (h.finish c) := .release h c.slot

theorem leave (h : Hub σ) (r : Run τ) : h.Quiet (r.leave h) := ⟨rfl, rfl, rfl, rfl⟩

end Hub.Quiet

/-- What the calls of a task keep of it, and of how far the chain is. A task does not ask the local
chain about blocks. -/
structure Lasting (σ : Type) [Workload τ] [Receiver σ τ] (P : τ → Prop) : Prop where
  reserve : ∀ {t t' : τ} {peer : PeerId} {capacity : Nat} {live : List PeerId} {a : Assignment},
    P t → Workload.reserve t peer capacity live = some (a, t') → P t'
  fail : ∀ {t : τ} (id : RequestId), P t → P (Workload.fail t id).2
  failPeer : ∀ {t : τ} (peer : PeerId), P t → P (Workload.failPeer t peer).2
  deliver : ∀ {t : τ} (board : Board σ) (id : RequestId) (peer : PeerId) (payload : Payload),
    P t → P (Receiver.deliver t board id peer payload).1
  current : ∀ (t : τ) (board : Board σ) (id : RequestId) (peer : PeerId) (payload : Payload),
    (Receiver.deliver t board id peer payload).2.1.progress.current = board.progress.current
  known : ∀ (t : τ) (board : Board σ) (id : RequestId) (peer : PeerId) (payload : Payload)
    (hash : Hash), (Receiver.deliver t board id peer payload).2.2 ≠ .error (.unknownBlock hash)

/-- What a task keeps of itself aside. -/
theorem Lasting.forget [Workload τ] [Receiver σ τ] {P : τ → Prop} (lasting : Lasting σ P) :
    Lasting σ fun _ : τ => True :=
  ⟨fun _ _ => trivial, fun _ _ => trivial, fun _ _ => trivial, fun _ _ _ _ _ => trivial,
    lasting.current, lasting.known⟩

namespace Run

variable [Workload τ] [Receiver σ τ] {P : τ → Prop}

/-- A run under way, or one that came to its end. -/
structure Sound (P : τ → Prop) (h : Hub σ) (out : Run τ × Hub σ × Option (Except SyncError Unit)) :
    Prop where
  kept : P out.1.task
  quiet : h.Quiet out.2.1
  done : out.2.2 = some (.ok ()) → Workload.isDone out.1.task
  known : ∀ hash, out.2.2 ≠ some (.error (.unknownBlock hash))

omit [Receiver σ τ] in
theorem Sound.after {h h' : Hub σ} {out : Run τ × Hub σ × Option (Except SyncError Unit)}
    (sound : Sound P h' out) (quiet : h.Quiet h') : Sound P h out :=
  ⟨sound.kept, quiet.trans sound.quiet, sound.done, sound.known⟩

section Turns

variable (lasting : Lasting σ P)
include lasting

/-- What its task keeps, a run keeps too. -/
theorem conduct_keeps (h : Hub σ) :
    Conduct fun (r : Run τ) h' => P r.task ∧ h.Quiet h' where
  offer {r h'} live peer kept := by
    obtain ⟨hp, quiet⟩ := kept
    rcases r.offer_cases h' live peer with
      ⟨same, -⟩ | ⟨slot, peers, begun, ⟨same, -⟩ | ⟨capacity, a, task, reserved, same⟩⟩ <;> rw [same]
    · exact ⟨hp, quiet⟩
    · have taken : h.Quiet (h'.setPeers peers) := quiet.trans (.beginRequest h' begun)
      exact ⟨hp, taken.trans (.release ..)⟩
    · have taken : h.Quiet (h'.setPeers peers) := quiet.trans (.beginRequest h' begun)
      exact ⟨lasting.reserve hp reserved, taken.trans (.send ..)⟩
  awaitPeers {r h'} kept := by
    obtain ⟨since, throttle, same⟩ := r.awaitPeers_eq h'
    rw [same]
    exact ⟨kept.1, kept.2.trans ⟨rfl, rfl, rfl, rfl⟩⟩
  noteEvent {r h'} event events kept := by
    refine ⟨?_, kept.2.trans ⟨rfl, rfl, rfl, rfl⟩⟩
    cases event with
    | registered peer => exact kept.1
    | unregistered peer | dropped peer => exact lasting.failPeer peer kept.1
  leave kept := ⟨kept.1, kept.2.trans (.leave ..)⟩

theorem start_sound (task : τ) (h : Hub σ) (cancelled : Bool) (hp : P task) :
    Sound P h (start task h cancelled) := by
  obtain ⟨⟨kept, quiet⟩, done⟩ :=
    start_reached (conduct_keeps lasting h) cancelled ⟨hp, ⟨rfl, rfl, rfl, rfl⟩⟩
  refine ⟨kept, quiet, done, fun hash failed => ?_⟩
  have why : Failure (fun _ => False) cancelled False (.unknownBlock hash) := start_error failed
  cases why with
  | answer wrong => exact wrong

omit lasting [Workload τ] [Receiver σ τ] in
theorem judge_quiet (h : Hub σ) (e : Errand) (delivery : Delivery) :
    h.Quiet (judge h e delivery) := by
  cases delivery with
  | accepted items =>
    unfold judge
    dsimp only
    split
    · exact ⟨rfl, PeerSet.config_recordTimeout .., PeerSet.ids_recordTimeout .., rfl⟩
    · exact ⟨rfl, rfl, PeerSet.ids_recordDelivery .., rfl⟩
  | stale items => exact ⟨rfl, rfl, rfl, rfl⟩
  | disputed items reason => exact ⟨rfl, rfl, rfl, rfl⟩
  | rejected accepted dropped reason =>
    exact ⟨rfl, PeerSet.config_drop .., PeerSet.ids_drop .., rfl⟩

theorem conclude_keeps (r : Run τ) (h : Hub σ) (e : Errand) (ending : Ending) (hp : P r.task) :
    P (r.conclude h e ending).1.task ∧ h.Quiet (r.conclude h e ending).2.1 := by
  cases ending with
  | answered payload =>
    have kept := lasting.deliver h.board e.id e.call.peer payload hp
    have current := lasting.current r.task h.board e.id e.call.peer payload
    simp only [conclude]
    generalize Receiver.deliver r.task h.board e.id e.call.peer payload = out at kept current ⊢
    obtain ⟨task, board, result⟩ := out
    have reported : h.Quiet { h with board } := ⟨rfl, rfl, rfl, current⟩
    cases result with
    | error err => exact ⟨kept, reported⟩
    | ok delivery => exact ⟨kept, reported.trans (judge_quiet ..)⟩
  | timedOut =>
    exact ⟨lasting.fail e.id hp,
      ⟨rfl, PeerSet.config_recordTimeout .., PeerSet.ids_recordTimeout .., rfl⟩⟩
  | failed error => exact ⟨lasting.fail e.id hp, .drop ..⟩

/-- Whatever a run is told, it keeps what its task keeps. -/
theorem step_sound (r : Run τ) (h : Hub σ) (cancelled : Bool) (signal : Signal) (hp : P r.task) :
    Sound P h (r.step h cancelled signal) := by
  obtain ⟨⟨kept, quiet⟩, done⟩ : Reached (fun r' h' => P r'.task ∧ h.Quiet h')
      (r.step h cancelled signal) := by
    refine step_reached (conduct_keeps lasting h) cancelled signal (fun _ => ⟨hp, .refl h⟩)
      fun e ending _ => ?_
    have finished : h.Quiet (h.finish e.call) := .finish ..
    obtain ⟨kept, quiet⟩ :=
      conclude_keeps lasting (Watch.settled r e.call.ticket) (h.finish e.call) e ending hp
    exact ⟨kept, finished.trans quiet⟩
  refine ⟨kept, quiet, done, fun hash failed => ?_⟩
  have why : Failure (· ≠ .unknownBlock hash) cancelled True (.unknownBlock hash) := by
    refine step_error (fun _ => trivial) (fun board id peer payload err fault same => ?_) failed
    exact lasting.known r.task board id peer payload hash (same ▸ fault)
  cases why with
  | answer wrong => exact wrong rfl

end Turns
end Run
end Fetch
end ChainSync
