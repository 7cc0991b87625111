import ChainSync.Ancestor
import ChainSync.Headers.SkeletonFetch
import ChainSync.Proofs.Fetch.Steady
import ChainSync.Proofs.Peer.Active
import ChainSync.Proofs.Peer.Choice
set_option autoImplicit false

/-!
What a run keeps of its task and of the board together. Nobody comes alive by it, and a question to
one peer alone leaves the board as it is.
-/

namespace ChainSync

namespace PeerSet

/-- Nobody comes alive. -/
structure Wanes (s s' : PeerSet) : Prop where
  active : ∀ id ∈ s'.activeIds, id ∈ s.activeIds

namespace Wanes

variable {s s' s'' : PeerSet} {id : PeerId} {c : Category}

theorem refl (s : PeerSet) : s.Wanes s := ⟨fun _ active => active⟩

theorem trans (a : s.Wanes s') (b : s'.Wanes s'') : s.Wanes s'' :=
  ⟨fun id active => a.active id (b.active id active)⟩

theorem of_same (same : s'.activeIds = s.activeIds) : s.Wanes s' := ⟨fun _ active => same ▸ active⟩

theorem of_live (kept : ∀ p ∈ s'.peers, p.live = true → p ∈ s.peers) : s.Wanes s' := by
  refine ⟨fun id active => ?_⟩
  obtain ⟨p, hp, live, rfl⟩ := mem_activeIds.mp active
  exact mem_activeIds.mpr ⟨p, kept p hp live, live, rfl⟩

theorem drop (s : PeerSet) (id : PeerId) : s.Wanes (s.drop id) := .of_live fun _ => mem_of_drop

theorem blacklist (s : PeerSet) (id : PeerId) : s.Wanes (s.blacklist id) :=
  ⟨(drop { s with blacklisted := s.blacklisted.insert id } id).active⟩

theorem recordTimeout (s : PeerSet) (id : PeerId) (c : Category) :
    s.Wanes (s.recordTimeout id c).2 := by
  have slowed (f : SyncPeer → SyncPeer) (same : ∀ p, (f p).id = p.id ∧ (f p).live = p.live) :
      s.Wanes (s.modify id f) := .of_same (activeIds_modify s id same)
  rcases s.recordTimeout_cases id c with same | same | same <;> rw [same]
  · exact .refl s
  · exact slowed _ fun _ => ⟨rfl, rfl⟩
  · refine .trans ?_ (drop ..)
    exact slowed _ fun _ => ⟨rfl, rfl⟩

end Wanes

end PeerSet

namespace Fetch

variable {σ τ : Type}

/-- The board stays as it is, and nobody comes alive. -/
structure Hub.Wanes (h h' : Hub σ) : Prop where
  board : h'.board = h.board
  active : h.peers.Wanes h'.peers

namespace Hub.Wanes

variable {h h' h'' : Hub σ}

theorem refl (h : Hub σ) : h.Wanes h := ⟨rfl, .refl _⟩

theorem trans (a : h.Wanes h') (b : h'.Wanes h'') : h.Wanes h'' :=
  ⟨b.board.trans a.board, a.active.trans b.active⟩

theorem of_same (board : h'.board = h.board) (same : h'.peers.activeIds = h.peers.activeIds) :
    h.Wanes h' := ⟨board, .of_same same⟩

theorem beginRequest {peers : PeerSet} {id : PeerId} {c : Category} {slot : Slot}
    (begun : h.peers.beginRequest id c = .ok (slot, peers)) : h.Wanes (h.setPeers peers) :=
  .of_same rfl (PeerSet.activeIds_beginRequest begun)

theorem release (h : Hub σ) (slot : Slot) : h.Wanes (h.setPeers (h.peers.release slot)) :=
  .of_same rfl (PeerSet.activeIds_release ..)

theorem finish (h : Hub σ) (c : Call) : h.Wanes (h.finish c) := .release h c.slot

theorem leave (h : Hub σ) (r : Run τ) : h.Wanes (r.leave h) := .of_same rfl rfl

end Hub.Wanes

/-- What the calls of a task keep of it and of the board together. -/
structure Joint [Workload τ] [Receiver σ τ] (P : τ → Board σ → Prop) : Prop where
  reserve : ∀ {t t' : τ} {board : Board σ} {peer : PeerId} {capacity : Nat} {live : List PeerId}
    {a : Assignment}, P t board → Workload.reserve t peer capacity live = some (a, t') → P t' board
  fail : ∀ {t : τ} {board : Board σ} (id : RequestId), P t board → P (Workload.fail t id).2 board
  failPeer : ∀ {t : τ} {board : Board σ} (peer : PeerId), P t board →
    P (Workload.failPeer t peer).2 board
  deliver : ∀ {t : τ} {board : Board σ} (id : RequestId) (peer : PeerId) (payload : Payload),
    P t board → P (Receiver.deliver t board id peer payload).1
      (Receiver.deliver t board id peer payload).2.1

theorem Joint.trivial [Workload τ] [Receiver σ τ] : Joint fun (_ : τ) (_ : Board σ) => True :=
  ⟨fun _ _ => ⟨⟩, fun _ _ => ⟨⟩, fun _ _ => ⟨⟩, fun _ _ _ _ => ⟨⟩⟩

namespace Run

variable [Workload τ] [Receiver σ τ] {P : τ → Board σ → Prop}

/-- A run under way, or one that came to its end. -/
structure Abides (P : τ → Board σ → Prop) (h : Hub σ)
    (out : Run τ × Hub σ × Option (Except SyncError Unit)) : Prop where
  kept : P out.1.task out.2.1.board
  active : h.peers.Wanes out.2.1.peers
  done : out.2.2 = some (.ok ()) → Workload.isDone out.1.task

variable (joint : Joint P)
include joint

/-- What its task keeps with the board, a run keeps with it. -/
theorem conduct_abides (h : Hub σ) :
    Conduct fun (r : Run τ) h' => P r.task h'.board ∧ h.peers.Wanes h'.peers where
  offer {r h'} live peer kept := by
    obtain ⟨hp, wanes⟩ := kept
    rcases r.offer_cases h' live peer with
      ⟨same, -⟩ | ⟨slot, peers, begun, ⟨same, -⟩ | ⟨capacity, a, task, reserved, same⟩⟩ <;> rw [same]
    · exact ⟨hp, wanes⟩
    · have taken := (Hub.Wanes.beginRequest begun).trans (.release _ slot)
      exact ⟨hp, wanes.trans taken.active⟩
    · have taken := Hub.Wanes.beginRequest begun
      exact ⟨joint.reserve hp reserved, wanes.trans taken.active⟩
  awaitPeers {r h'} kept := by
    obtain ⟨since, throttle, same⟩ := r.awaitPeers_eq h'
    rw [same]
    exact kept
  noteEvent {r h'} event events kept := by
    refine ⟨?_, kept.2.trans (.of_same rfl)⟩
    cases event with
    | registered peer => exact kept.1
    | unregistered peer | dropped peer => exact joint.failPeer peer kept.1
  leave kept := ⟨kept.1, kept.2.trans (.of_same rfl)⟩

theorem start_abides (task : τ) (h : Hub σ) (cancelled : Bool) (hp : P task h.board) :
    Abides P h (start task h cancelled) := by
  obtain ⟨⟨kept, wanes⟩, done⟩ :=
    start_reached (conduct_abides joint h) cancelled ⟨hp, .of_same rfl⟩
  exact ⟨kept, wanes, done⟩

omit joint [Workload τ] [Receiver σ τ] in
theorem judge_wanes (h : Hub σ) (e : Errand) (delivery : Delivery) :
    h.Wanes (judge h e delivery) := by
  cases delivery with
  | accepted items =>
    unfold judge
    dsimp only
    split
    · exact ⟨rfl, .recordTimeout ..⟩
    · exact .of_same rfl (PeerSet.activeIds_recordDelivery ..)
  | stale items => exact .of_same rfl rfl
  | disputed items reason => exact .of_same rfl rfl
  | rejected accepted dropped reason => exact ⟨rfl, .drop ..⟩

theorem conclude_abides (r : Run τ) (h : Hub σ) (e : Errand) (ending : Ending)
    (hp : P r.task h.board) :
    P (r.conclude h e ending).1.task (r.conclude h e ending).2.1.board ∧
      h.peers.Wanes (r.conclude h e ending).2.1.peers := by
  cases ending with
  | answered payload =>
    have kept := joint.deliver e.id e.call.peer payload hp
    simp only [conclude]
    generalize Receiver.deliver r.task h.board e.id e.call.peer payload = out at kept
    obtain ⟨task, board, result⟩ := out
    cases result with
    | error err => exact ⟨kept, .refl _⟩
    | ok delivery =>
      obtain ⟨same, active⟩ := judge_wanes { h with board } e delivery
      exact ⟨by rw [same]; exact kept, active⟩
  | timedOut => exact ⟨joint.fail e.id hp, .recordTimeout ..⟩
  | failed error => exact ⟨joint.fail e.id hp, .drop ..⟩

theorem step_abides (r : Run τ) (h : Hub σ) (cancelled : Bool) (signal : Signal)
    (hp : P r.task h.board) : Abides P h (r.step h cancelled signal) := by
  obtain ⟨⟨kept, wanes⟩, done⟩ :
      Reached (fun r' (h' : Hub σ) => P r'.task h'.board ∧ h.peers.Wanes h'.peers)
        (r.step h cancelled signal) := by
    refine step_reached (conduct_abides joint h) cancelled signal (fun _ => ⟨hp, .refl _⟩)
      fun e ending _ => ?_
    have finished := (Hub.Wanes.finish h e.call).active
    obtain ⟨kept, wanes⟩ :=
      conclude_abides joint (Watch.settled r e.call.ticket) (h.finish e.call) e ending hp
    exact ⟨kept, finished.trans wanes⟩
  exact ⟨kept, wanes, done⟩

end Run
end Fetch

open Fetch

variable {σ : Type}

namespace HeaderQuery

theorem ask_wanes (h : Hub σ) (peer : SyncPeer) (request : HeadersRequest) (cancelled : Bool) :
    h.Wanes (ask h peer request cancelled).1 := by
  unfold ask
  split
  · exact .refl h
  · rename_i slot peers hb
    split
    · exact .refl h
    · have taken : h.Wanes (h.setPeers peers) := .beginRequest hb
      exact taken.trans (.of_same rfl rfl)

theorem conclude_wanes (q : HeaderQuery) (h : Hub σ) (ending : Ending) :
    h.Wanes (q.conclude h ending).1 := by
  cases ending with
  | answered payload => exact .of_same rfl (PeerSet.activeIds_recordDelivery ..)
  | failed error => exact .refl h
  | timedOut => exact ⟨rfl, .recordTimeout ..⟩

theorem step_wanes (q : HeaderQuery) (h : Hub σ) (cancelled : Bool) (signal : Signal) :
    h.Wanes (q.step h cancelled signal).1 := by
  cases signal with
  | ended ticket ending =>
    simp only [step]
    split
    · exact (Hub.Wanes.finish h q.call).trans (q.conclude_wanes _ _)
    · exact .refl h
  | woken =>
    simp only [step]
    split
    · exact .finish h q.call
    · exact .refl h
  | deadline => exact .refl h

end HeaderQuery

namespace SkeletonFetch

theorem advance_wanes (h : Hub σ) (cancelled : Bool) (master : SyncPeer) (start stop size : Nat)
    (received : List Header) (requests : List HeadersRequest) :
    h.Wanes (advance h cancelled master start stop size received requests).1 := by
  cases requests with
  | nil => exact .refl h
  | cons request remaining =>
    have asked := HeaderQuery.ask_wanes h master request cancelled
    simp only [advance]
    split <;> rename_i heq <;> rwa [heq] at asked

theorem step_wanes (f : SkeletonFetch) (h : Hub σ) (cancelled : Bool) (signal : Signal) :
    h.Wanes (f.step h cancelled signal).1 := by
  have stepped := f.query.step_wanes h cancelled signal
  unfold step
  split <;> rename_i heq <;> rw [heq] at stepped
  · exact stepped
  · exact stepped
  · exact stepped.trans (advance_wanes ..)

end SkeletonFetch

namespace AncestorSearch

theorem probe_wanes (h : Hub σ) (cancelled : Bool) (peer : SyncPeer) (localHead : Header)
    (maxForkAncestry probes : Nat) (aim : Aim) :
    h.Wanes (probe h cancelled peer localHead maxForkAncestry probes aim).1 := by
  have asked := HeaderQuery.ask_wanes h peer
    (.single (.number (aim.number (height peer localHead)))) cancelled
  unfold probe
  dsimp only
  split <;> rename_i heq <;> rwa [heq] at asked

theorem step_wanes (s : AncestorSearch) (h : Hub σ) (cancelled : Bool) (view : ChainView)
    (signal : Signal) : h.Wanes (s.step h cancelled view signal).1 := by
  have stepped := s.query.step_wanes h cancelled signal
  unfold step
  split <;> rename_i heq <;> rw [heq] at stepped
  · exact stepped
  · exact stepped
  · exact stepped
  · dsimp only
    split
    · exact stepped
    · split
      · exact stepped.trans (probe_wanes ..)
      · exact stepped
      · exact stepped

end AncestorSearch
end ChainSync
