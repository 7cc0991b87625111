import ChainSync.Ancestor
import ChainSync.Headers.Fill
import ChainSync.Headers.SkeletonFetch
import ChainSync.Proofs.Fetch.BlockData
import ChainSync.Proofs.Fetch.Conduct
import ChainSync.State.Download
set_option autoImplicit false

/-!
Fetching neither turns to another mode nor lets time pass, and it gives nothing up for the sake of
another way to sync.
-/

namespace ChainSync

open Fetch

namespace Fetch

variable {σ τ : Type}

structure Hub.Calm (h h' : Hub σ) : Prop where
  mode : h'.board.progress.mode = h.board.progress.mode
  fallbacks : h'.metrics.stateFetchFallbacks = h.metrics.stateFetchFallbacks
  now : h'.now = h.now

namespace Hub.Calm

variable {h h' h'' : Hub σ}

theorem refl (h : Hub σ) : h.Calm h := ⟨rfl, rfl, rfl⟩

theorem trans (a : h.Calm h') (b : h'.Calm h'') : h.Calm h'' :=
  ⟨b.mode.trans a.mode, b.fallbacks.trans a.fallbacks, b.now.trans a.now⟩

theorem setPhase (h : Hub σ) (phase : SyncPhase) : h.Calm (h.setPhase phase) := ⟨rfl, rfl, rfl⟩

theorem leave (h : Hub σ) (r : Run τ) : h.Calm (r.leave h) := ⟨rfl, rfl, rfl⟩

end Hub.Calm

/-- Answers to a task do not change the mode. -/
class Reticent (σ τ : Type) [Receiver σ τ] : Prop where
  mode (t : τ) (board : Board σ) (id : RequestId) (peer : PeerId) (payload : Payload) :
    (Receiver.deliver t board id peer payload).2.1.progress.mode = board.progress.mode

instance : Reticent σ HeaderFill := ⟨fun _ _ _ _ _ => rfl⟩

instance {δ : Type} [BlockData δ] [LawfulBlockData δ] : Reticent σ (BlockFetch δ) :=
  ⟨fun _ _ _ _ _ => LawfulBlockData.count_mode ..⟩

instance [NodeStore σ] : Reticent σ StateDownload where
  mode t board id peer payload := by
    simp only [Receiver.deliver]
    split <;> rfl

namespace Run

variable [Workload τ]

theorem conduct_calm (h : Hub σ) : Conduct fun (_ : Run τ) h' => h.Calm h' where
  offer {r h'} live peer calm := by
    rcases r.offer_cases h' live peer with
      ⟨same, -⟩ | ⟨slot, peers, -, ⟨same, -⟩ | ⟨capacity, a, task, -, same⟩⟩ <;> rw [same]
    · exact calm
    · exact calm.trans ⟨rfl, rfl, rfl⟩
    · exact calm.trans ⟨rfl, rfl, rfl⟩
  awaitPeers {r h'} calm := by
    obtain ⟨since, throttle, same⟩ := r.awaitPeers_eq h'
    rw [same]
    exact calm.trans ⟨rfl, rfl, rfl⟩
  noteEvent _ _ calm := calm.trans ⟨rfl, rfl, rfl⟩
  leave calm := calm.trans (.leave ..)

theorem start_calm (task : τ) (h : Hub σ) (cancelled : Bool) :
    h.Calm (start task h cancelled).2.1 :=
  (start_reached (conduct_calm h) cancelled ⟨rfl, rfl, rfl⟩).kept

omit [Workload τ] in
theorem judge_calm (h : Hub σ) (e : Errand) (delivery : Delivery) :
    h.Calm (judge h e delivery) := by
  cases delivery with
  | accepted items =>
    unfold judge
    dsimp only
    split <;> exact ⟨rfl, rfl, rfl⟩
  | stale items => exact ⟨rfl, rfl, rfl⟩
  | disputed items reason => exact ⟨rfl, rfl, rfl⟩
  | rejected accepted dropped reason => exact ⟨rfl, rfl, rfl⟩

variable [Receiver σ τ] [Reticent σ τ]

theorem conclude_calm (r : Run τ) (h : Hub σ) (e : Errand) (ending : Ending) :
    h.Calm (r.conclude h e ending).2.1 := by
  cases ending with
  | answered payload =>
    have mode := Reticent.mode r.task h.board e.id e.call.peer payload
    simp only [conclude]
    generalize Receiver.deliver r.task h.board e.id e.call.peer payload = out at mode
    obtain ⟨task, board, result⟩ := out
    have reported : h.Calm { h with board } := ⟨mode, rfl, rfl⟩
    cases result with
    | error err => exact reported
    | ok delivery => exact reported.trans (judge_calm ..)
  | timedOut => exact ⟨rfl, rfl, rfl⟩
  | failed error => exact ⟨rfl, rfl, rfl⟩

theorem step_calm (r : Run τ) (h : Hub σ) (cancelled : Bool) (signal : Signal) :
    h.Calm (r.step h cancelled signal).2.1 := by
  refine (step_reached (conduct_calm h) cancelled signal (fun _ => .refl h) fun e ending _ =>
    ?_).kept
  have finished : h.Calm (h.finish e.call) := ⟨rfl, rfl, rfl⟩
  exact finished.trans (conclude_calm ..)

end Run
end Fetch

variable {σ : Type}

namespace HeaderQuery

theorem ask_calm (h : Hub σ) (peer : SyncPeer) (request : HeadersRequest) (cancelled : Bool) :
    h.Calm (ask h peer request cancelled).1 := by
  unfold ask
  split
  · exact .refl h
  · split <;> exact ⟨rfl, rfl, rfl⟩

theorem step_calm (q : HeaderQuery) (h : Hub σ) (cancelled : Bool) (signal : Signal) :
    h.Calm (q.step h cancelled signal).1 := by
  cases signal with
  | ended ticket ending =>
    simp only [step]
    split
    · cases ending <;> exact ⟨rfl, rfl, rfl⟩
    · exact .refl h
  | woken =>
    simp only [step]
    split <;> exact ⟨rfl, rfl, rfl⟩
  | deadline => exact .refl h

end HeaderQuery

namespace SkeletonFetch

theorem advance_calm (h : Hub σ) (cancelled : Bool) (master : SyncPeer) (start stop size : Nat)
    (received : List Header) (requests : List HeadersRequest) :
    h.Calm (advance h cancelled master start stop size received requests).1 := by
  cases requests with
  | nil => exact .refl h
  | cons request remaining =>
    have asked := HeaderQuery.ask_calm h master request cancelled
    simp only [advance]
    split <;> rename_i heq <;> rwa [heq] at asked

theorem step_calm (f : SkeletonFetch) (h : Hub σ) (cancelled : Bool) (signal : Signal) :
    h.Calm (f.step h cancelled signal).1 := by
  have stepped := f.query.step_calm h cancelled signal
  unfold step
  split <;> rename_i heq <;> rw [heq] at stepped
  · exact stepped
  · exact stepped
  · exact stepped.trans (advance_calm ..)

end SkeletonFetch
end ChainSync
